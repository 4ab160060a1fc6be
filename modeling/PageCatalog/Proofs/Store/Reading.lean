import Mathlib.Tactic
import PageCatalog.Proofs.Store.Within

/-!
Computations that only ask.

What is built from questions to pages brings pages into memory and does nothing else: pages
that were in memory stay as they are, those that come into it need not be written, and the
device is never asked to write. So there is nothing to write for a flush afterwards, if there was
nothing before.

* `Device.Unwriting`: what every call of a device keeps but a write.
* `Session.Reads`: computations built from questions to the pages of a cache; `Reads.keeps`.
* `Session.Rests`, `Reads.rests`: what is in memory.
* `Reads.unwriting`, `Reads.turns`: the device, and the cache with its file.
* `Session.flushIn_clean`, `Session.flushIn_unwriting`: a flush leaves nothing to write, and a
  flush that has nothing to write.
-/

namespace PageCatalog

/-! ### Devices that are not written to -/

namespace Device

variable {δ α : Type} [Device δ]

/-- A property of a device that every call keeps but a write. -/
structure Unwriting (P : δ → Prop) : Prop where
  makeDirs : ∀ path d, P d → P (Device.makeDirs path d).2
  length : ∀ path d, P d → P (Device.length path d).2
  attach : ∀ path d, P d → P (Device.attach path d).2
  size : ∀ path d, P d → P (Device.size path d).2
  readAt : ∀ path pos len d, P d → P (Device.readAt path pos len d).2
  sync : ∀ path d, P d → P (Device.sync path d).2

variable {P : δ → Prop} {d : δ}

/-- A whole read does not ask the device to write. -/
lemma Unwriting.readExact (hP : Unwriting P) (path : String) (pos len : ℕ) (hd : P d) :
    P (Device.readExact path pos len d).2 :=
  readExact_keeps (fun pos len => hP.readAt path pos (len + 1)) pos len hd

/-- The files of a device that gives no false sizes. -/
lemma Account.unwriting (A : Account δ) (files : String → Bytes) :
    Unwriting fun d => A.Honest d ∧ A.bytes d = files := by
  have hcalm : ∀ {α : Type} {call : DeviceM δ α} {Q : (String → Bytes) → α → Prop}, A.Calm call Q →
      ∀ d, A.Honest d ∧ A.bytes d = files → A.Honest (call d).2 ∧ A.bytes (call d).2 = files := by
    intro α call Q hcall d ⟨hhonest, hfiles⟩
    have hstays : A.Stays d (call d).2 :=
      Ends.result (P := fun _ d' => A.Stays d d') ((hcall d hhonest).mono_ok fun _ _ h => h.1)
    exact ⟨hstays.honest, hstays.bytes.trans hfiles⟩
  exact ⟨fun path => hcalm (A.makeDirs_calm path), fun path => hcalm (A.length_calm path),
    fun path => hcalm (A.attach_calm path), fun path => hcalm (A.size_calm path),
    fun path pos len => hcalm (A.readAt_calm path pos len), fun path => hcalm (A.sync_calm path)⟩

end Device

/-- The number of writes that a device with faults was asked for. -/
lemma Faulty.unwriting {δ : Type} [Device δ] (n : ℕ) :
    Device.Unwriting fun d : Faulty δ => d.counts.writes = n := by
  have hpart : ∀ {α : Type} {failed : Bool} {e : IoError} {call : DeviceM δ α} (d : Faulty δ),
      d.counts.writes = n → ((if failed then (Except.error e, d) else pass call d)
        : Except IoError α × Faulty δ).2.counts.writes = n := by
    intro α failed e call d hd
    split <;> exact hd
  refine ⟨fun path d hd => hpart d hd, fun path d hd => hpart d hd, fun path d hd => hpart _ hd,
    fun path d hd => ?_, fun path pos len d hd => ?_, fun path d hd => hpart _ hd⟩
  · simp only [Device.size]
    split
    · exact hd
    · split <;> exact hd
  · simp only [Device.readAt, transfer]
    cases d.faults.read with
    | interrupted =>
        simp only
        split <;> exact hd
    | _ => exact hd

namespace Session

variable {δ α β : Type}

/-! ### Questions -/

/-- A page in memory. -/
def frame? (s : Session δ) (c : CacheId) (i : ℕ) : Option Frame :=
  (s.store.caches[c]?).bind (·.frames[i]?)

variable [Device δ]

/-- Computations that are built from questions to the pages of a cache. -/
inductive Reads (c : CacheId) : {α : Type} → SessionM δ α → Prop
  | settle {α : Type} (r : Except Failure α) : Reads c (settle r)
  | bind {α β : Type} {m : SessionM δ α} {f : α → SessionM δ β} (hm : Reads c m)
      (hf : ∀ a, Reads c (f a)) : Reads c (m >>= f)
  | caught {α : Type} {m : SessionM δ α} (hm : Reads c m) : Reads c (caught m)
  | cacheFile : Reads c (cacheFile c)
  | frame (id : PageId) : Reads c (frame c id)

namespace Reads

variable {c : CacheId} {m : SessionM δ α}

/-- A result that is there already needs no call. -/
lemma pure (a : α) : Reads c (pure a : SessionM δ α) := settle (.ok a)

/-- A failure needs no call. -/
lemma throw (e : Failure) : Reads c (throw e : SessionM δ α) := settle (.error e)

/-- The answer to a question may be reshaped. -/
lemma map (hm : Reads c m) (f : α → β) : Reads c (f <$> m) := by
  rw [← bind_pure_comp]
  exact hm.bind fun a => pure (f a)

/-- Looking at a page is a question. -/
lemma view (id : PageId) (f : Page → Except Failure α) :
    Reads c (Session.view c id f : SessionM δ α) :=
  (frame id).bind fun g => settle (f g.bytes)

/-- The number of pages is a question. -/
lemma pageCount : Reads c (Session.pageCount c : SessionM δ ℕ) := cacheFile.bind fun k => pure k.next

/-- The number of freed pages is a question. -/
lemma freedCount : Reads c (Session.freedCount c : SessionM δ ℕ) :=
  cacheFile.bind fun k => pure k.freedCount

/-- They are built from calls for the pages of the cache. -/
lemma within (h : Reads c m) : Within c m := by
  induction h with
  | settle r => exact .settle r
  | bind _ _ ihm ihf => exact .bind ihm ihf
  | caught _ ih => exact .caught ih
  | cacheFile => exact .cacheFile
  | frame id => exact .frame id

end Reads

/-- What opening a cache and bringing a page into memory keep, questions keep. -/
theorem Reads.keeps {c : CacheId} {m : SessionM δ α} (hm : Reads c m) {R : Session δ → Session δ → Prop}
    (hrefl : ∀ s, R s s) (htrans : ∀ {s s' s''}, R s s' → R s' s'' → R s s'')
    (hcacheFile : ∀ s, R s (Session.cacheFile c s).2) (hframe : ∀ id s, R s (Session.frame c id s).2)
    (s : Session δ) : R s (m s).2 := by
  induction hm generalizing s with
  | settle r => cases r <;> exact hrefl s
  | @bind _ _ m f _ _ ihm ihf =>
      have hfirst := ihm s
      rcases hrun : m s with ⟨e | a, s'⟩ <;> rw [hrun] at hfirst
      · rwa [run_bind_error hrun]
      · rw [run_bind_ok hrun]
        exact htrans hfirst (ihf a s')
  | caught _ ih => exact ih s
  | cacheFile => exact hcacheFile s
  | frame id => exact hframe id s

/-! ### What is in memory -/

/-- All pages in memory are still there, and no other ones but such as were loaded. Open caches
have as many pages as they had. -/
structure Rests (s s' : Session δ) : Prop where
  folder : s'.store.folder = s.store.folder
  options : s'.store.options = s.store.options
  count : ∀ {c n}, s.next? c = some n → s'.next? c = some n
  kept : ∀ {c i f}, s.frame? c i = some f → s'.frame? c i = some f
  loaded : ∀ {c i f}, s'.frame? c i = some f →
    s.frame? c i = some f ∨ f.dirty = false ∧ f.freed = false

variable {c : CacheId} {i : ℕ} {id : PageId} {s s' s'' : Session δ} {k : CacheFile} {f : Frame}

omit [Device δ] in
/-- What is in memory is told by the store alone. -/
lemma rests_of_store (h : s'.store = s.store) : s.Rests s' where
  folder := by rw [h]
  options := by rw [h]
  count hn := by rwa [next?, h]
  kept hf := by rwa [frame?, h]
  loaded hf := .inl (by rwa [frame?, h] at hf)

omit [Device δ] in
/-- Two calls that only load pages. -/
lemma Rests.trans (h : s.Rests s') (h' : s'.Rests s'') : s.Rests s'' where
  folder := h'.folder.trans h.folder
  options := h'.options.trans h.options
  count hn := h'.count (h.count hn)
  kept hf := h'.kept (h.kept hf)
  loaded hf := (h'.loaded hf).elim h.loaded .inr

omit [Device δ] in
/-- The frames of an open cache. -/
lemma frame?_open (hk : s.store.caches[c]? = some k) (i : ℕ) : s.frame? c i = k.frames[i]? := by
  rw [frame?, hk, Option.bind_some]

omit [Device δ] in
/-- The frames after one was put into an open cache. -/
lemma frame?_withFrame (hk : s.store.caches[c]? = some k) (c' : CacheId) (j : ℕ) :
    (s.withFrame c i f).frame? c' j = if c' = c ∧ i = j then some f else s.frame? c' j := by
  by_cases hc : c' = c
  · subst hc
    rw [frame?_open (withFrame_open hk i f), getElem?_insert_frame, frame?_open hk]
    simp
  · rw [frame?, (withFrame_only c i f s).others c' hc, if_neg fun h => hc h.1, frame?]

omit [Device δ] in
/-- A page is brought into memory. -/
lemma rests_loaded (hk : s.store.caches[c]? = some k) (hnone : k.frames[i]? = none)
    (hdirty : f.dirty = false) (hfreed : f.freed = false) : s.Rests (s.withFrame c i f) where
  folder := rfl
  options := rfl
  count {c' n} hn := by
    by_cases hc : c' = c
    · subst hc
      rwa [next?_withFrame hk]
    · rwa [next?, (withFrame_only c i f s).others c' hc]
  kept {c' j g} hg := by
    rw [frame?_withFrame hk, if_neg, hg]
    rintro ⟨rfl, rfl⟩
    rw [frame?_open hk, hnone] at hg
    cases hg
  loaded {c' j g} hg := by
    rw [frame?_withFrame hk] at hg
    split at hg
    · exact .inr (Option.some.inj hg ▸ ⟨hdirty, hfreed⟩)
    · exact .inl hg

/-- Opening a cache brings no page into memory. -/
lemma cacheFile_rests (c : CacheId) (s : Session δ) :
    Ends (cacheFile c) s (fun k s' => s'.store.caches[c]? = some k ∧ s.Rests s')
      (fun _ s' => s.Rests s') := by
  cases hk : s.store.caches[c]? with
  | some k => exact Ends.of_ok (cacheFile_open hk) ⟨hk, rests_of_store rfl⟩
  | none =>
      refine (cacheFile_store c s).mono ?_ fun _ _ h => rests_of_store h
      rintro k s' (⟨hk', -⟩ | ⟨hframes, hstore⟩)
      · rw [hk] at hk'
        cases hk'
      · have hopen : s'.store.caches[c]? = some k := by
          rw [hstore]
          exact Std.TreeMap.getElem?_insert_self
        have hothers : ∀ c' ≠ c, s'.store.caches[c']? = s.store.caches[c']? := fun c' hc => by
          rw [hstore]
          exact (only_insert (s := s) k).others c' hc
        refine ⟨hopen, by rw [hstore], by rw [hstore], fun {c' n} hn => ?_, fun {c' i f} hf => ?_,
          fun {c' i f} hf => ?_⟩
        · by_cases hc : c' = c
          · rw [hc, next?, hk] at hn
            cases hn
          · rwa [next?, hothers c' hc]
        · by_cases hc : c' = c
          · rw [hc, frame?, hk] at hf
            cases hf
          · rwa [frame?, hothers c' hc]
        · by_cases hc : c' = c
          · rw [hc, frame?_open hopen, hframes, Std.TreeMap.getElem?_emptyc] at hf
            cases hf
          · rw [frame?, hothers c' hc] at hf
            exact .inl hf

/-- Asking for a page brings that one into memory. -/
lemma frame_rests (c : CacheId) (id : PageId) (s : Session δ) :
    Ends (frame c id) s (fun _ s' => s.Rests s') (fun _ s' => s.Rests s') := by
  refine frame_ends_of_steps (cacheFile_rests c s) (fun _ _ h _ => h.2) (fun _ _ _ h _ _ => h.2)
    (fun _ _ _ h _ _ _ => h.2) ?_
  rintro k s₁ ⟨hk, h₁⟩ - hf
  refine (load_ends k.path id.index s₁).mono (fun bytes s₂ h₂ => ?_)
    fun _ _ h => h₁.trans (rests_of_store h.2)
  have hk₂ : s₂.store.caches[c]? = some k := by rw [h₂, hk]
  exact h₁.trans ((rests_of_store h₂).trans (rests_loaded hk₂ hf rfl rfl))

/-- Questions only bring pages into memory. -/
theorem Reads.rests {m : SessionM δ α} (hm : Reads c m) (s : Session δ) : s.Rests (m s).2 :=
  hm.keeps (fun _ => rests_of_store rfl) .trans
    (fun s => Ends.result (P := fun _ s' => s.Rests s')
      ((cacheFile_rests c s).mono_ok fun _ _ h => h.2))
    (fun id s => (frame_rests c id s).result (P := fun _ s' => s.Rests s')) s

/-! ### Devices and files -/

section Device

variable {P : δ → Prop} (hP : Device.Unwriting P)
include hP

/-- Opening a cache looks for its file, attaches it and measures it. -/
lemma cacheFile_unwriting (c : CacheId) (hs : P s.device) :
    Ends (cacheFile c) s (fun _ s' => P s'.device) (fun _ s' => P s'.device) := by
  cases hk : s.store.caches[c]? with
  | some k => exact Ends.of_ok (cacheFile_open hk) hs
  | none =>
      refine cacheFile_ends_of_steps (I := fun s₁ => P s₁.device) (K := fun _ s₂ => P s₂.device) hk (fun _ => hs)
        (fun _ => ?_) (fun s₁ h₁ => ?_) (fun _ _ h₂ _ => h₂) fun _ _ _ h₂ _ _ => h₂
      · have hlooked : Ends (attempt (Device.length (s.store.pathOf c))) s (fun _ s₁ => P s₁.device)
            (fun _ _ => False) := Ends.of_ok rfl (hP.length _ _ hs)
        exact hlooked.mono_ok (by rintro (e | n) s₁ h₁ <;> exact h₁)
      · exact (perform_keeps (hP.attach _ _ h₁)).bind fun _ _ h₂ => perform_keeps (hP.size _ _ h₂)

/-- Asking for a page reads it from the file, or finds that it was never written. -/
lemma frame_unwriting (c : CacheId) (id : PageId) (hs : P s.device) :
    Ends (frame c id) s (fun _ s' => P s'.device) (fun _ s' => P s'.device) := by
  refine frame_ends_of_steps (cacheFile_unwriting hP c hs) (fun _ _ h _ => h) (fun _ _ _ h _ _ => h)
    (fun _ _ _ h _ _ _ => h) ?_
  intro k s₁ h₁ _ _
  refine Ends.bind_ok (show pageSize s₁ = (.ok s₁.size, s₁) from rfl) ?_
  refine (perform_keeps (hP.size _ _ h₁)).bind fun n s₂ h₂ => ?_
  split
  · exact perform_keeps (hP.readExact _ _ _ h₂)
  · exact Ends.of_ok rfl h₂

/-- Questions never ask the device to write. -/
theorem Reads.unwriting {m : SessionM δ α} (hm : Reads c m) (hs : P s.device) : P (m s).2.device :=
  hm.keeps (R := fun s s' => P s.device → P s'.device) (fun _ h => h) (fun h h' hs => h' (h hs))
    (fun _ hs => (cacheFile_unwriting hP c hs).result (P := fun _ (s' : Session δ) => P s'.device))
    (fun id _ hs => (frame_unwriting hP c id hs).result (P := fun _ (s' : Session δ) => P s'.device)) s hs

end Device

/-- Questions leave a cache the array that it is. -/
theorem Reads.turns {A : Device.Account δ} {m : SessionM δ α} (hm : Reads c m) (hs : s.Backed A c) :
    s.Turns A c (s.array A c) (m s).2 := by
  refine hm.keeps (R := fun s s' => s.Backed A c → s.Turns A c (s.array A c) s') (fun _ => .refl)
    (fun h h' hs => (h hs).stay (h' (h hs).backed)) (fun s hs => ?_) (fun id s hs => ?_) s hs
  · exact Ends.result (P := fun _ s' => s.Turns A c (s.array A c) s')
      ((cacheFile_turns hs).mono (fun _ _ h => h.2) fun _ _ h => h.2)
  · exact Ends.result (P := fun _ s' => s.Turns A c (s.array A c) s')
      ((frame_turns hs id).mono (fun _ _ h => h.2.2.2.1) fun _ _ h => h.2)

/-! ### Flushes -/

omit [Device δ] in
/-- A page is clean if its frame is, or if it is not in memory. -/
lemma clean_iff : s.Clean c i ↔ ∀ f, s.frame? c i = some f → f.dirty = false := by
  constructor
  · intro h f hf
    obtain ⟨k, hk, hf⟩ := Option.bind_eq_some_iff.mp hf
    exact h k f hk hf
  · intro h k f hk hf
    exact h f (by rw [frame?_open hk, hf])

omit [Device δ] in
/-- Nothing that was written has to be written. -/
lemma Rests.clean (h : s.Rests s') (hclean : s.Clean c i) : s'.Clean c i :=
  clean_iff.mpr fun f hf => (h.loaded hf).elim (clean_iff.mp hclean f) fun h => h.1

/-- Pages have been written, and no page has come into memory. -/
structure Washes (s s' : Session δ) : Prop where
  clean : ∀ {c i}, s.Clean c i → s'.Clean c i
  none : ∀ {c i}, s.frame? c i = none → s'.frame? c i = none

omit [Device δ] in
/-- What is in memory is told by the store alone. -/
lemma washes_of_store (h : s'.store = s.store) : s.Washes s' :=
  ⟨fun hclean k f hk => hclean k f (h ▸ hk), fun hnone => by rwa [frame?, h]⟩

omit [Device δ] in
/-- Two calls that only write pages. -/
lemma Washes.trans (h : s.Washes s') (h' : s'.Washes s'') : s.Washes s'' :=
  ⟨fun hclean => h'.clean (h.clean hclean), fun hnone => h'.none (h.none hnone)⟩

/-- A page that was written is clean; the frame put back for it is the only change. -/
lemma writePage_washes (c : CacheId) (path : String) (i : ℕ) (s : Session δ) :
    Ends (writePage c path i) s (fun _ s' => s.Washes s' ∧ s'.Clean c i) (fun _ _ => True) := by
  refine Ends.bind_ok (run_get s) ?_
  cases hf : (s.store.caches[c]?).bind (·.frames[i]?) with
  | none => exact Ends.of_ok rfl ⟨washes_of_store rfl, clean_iff.mpr fun f hf' => by cases hf.symm.trans hf'⟩
  | some f =>
      simp only
      split
      · refine Ends.bind_ok (show pageSize s = (.ok s.size, s) from rfl) ?_
        refine ((perform_ends _ s).mono_error fun _ _ _ => trivial).bind fun _ s₁ h₁ => ?_
        obtain ⟨k, hk, hf₁⟩ := Option.bind_eq_some_iff.mp hf
        rw [← h₁] at hk
        have hframe := frame?_withFrame (i := i) (f := { f with dirty := false }) hk
        refine Ends.of_ok (putFrame_run c i _ s₁)
          ⟨(washes_of_store h₁).trans ⟨fun hclean => ?_, fun hnone => ?_⟩, ?_⟩
        · refine clean_iff.mpr fun g hg => ?_
          rw [hframe] at hg
          split at hg
          · exact Option.some.inj hg ▸ rfl
          · exact clean_iff.mp hclean g hg
        · rw [hframe, if_neg, hnone]
          rintro ⟨rfl, rfl⟩
          rw [frame?_open hk, hf₁] at hnone
          cases hnone
        · refine clean_iff.mpr fun g hg => ?_
          rw [hframe, if_pos ⟨rfl, rfl⟩] at hg
          exact Option.some.inj hg ▸ rfl
      · rename_i hdirty
        refine Ends.of_ok rfl ⟨washes_of_store rfl, clean_iff.mpr fun g hg => ?_⟩
        obtain rfl : f = g := Option.some.inj (hf.symm.trans hg)
        simpa using hdirty

/-- After a flush that is whole no page has to be written. -/
theorem flushIn_clean (o : Schedule) (s : Session δ) :
    Ends (flushIn o) s (fun _ s' => ∀ c i, s'.Clean c i) (fun _ _ => True) := by
  refine Ends.bind_ok (run_get s) ?_
  -- By induction on the pages that are written: a page stays clean while the others are.
  have hpages : ∀ pages : List (CacheId × String × ℕ), ∀ s : Session δ,
      Ends (pages.forM fun e => writePage e.1 e.2.1 e.2.2) s
        (fun _ s' => s.Washes s' ∧ ∀ e ∈ pages, s'.Clean e.1 e.2.2) (fun _ _ => True) := by
    intro pages
    induction pages with
    | nil => exact fun s => ⟨washes_of_store rfl, fun _ he => absurd he List.not_mem_nil⟩
    | cons e rest ih =>
        intro s
        refine (writePage_washes e.1 e.2.1 e.2.2 s).bind ?_
        rintro - s₁ ⟨h₁, hclean₁⟩
        refine (ih s₁).mono_ok ?_
        rintro - s₂ ⟨h₂, hclean₂⟩
        refine ⟨h₁.trans h₂, fun e' he => ?_⟩
        obtain rfl | he := List.mem_cons.mp he
        · exact h₂.clean hclean₁
        · exact hclean₂ e' he
  refine (hpages _ s).bind ?_
  rintro - s₁ ⟨h₁, hwritten⟩
  -- A page that is in memory is among those that are written, in whatever order.
  have hclean : ∀ c i, s₁.Clean c i := by
    intro c i
    cases hf : s.frame? c i with
    | none => exact clean_iff.mpr fun f hf' => by cases (h₁.none hf).symm.trans hf'
    | some f =>
        obtain ⟨k, hk, hf⟩ := Option.bind_eq_some_iff.mp hf
        refine hwritten (c, k.path, i) ((o.pages_perm _).mem_iff.mpr (List.mem_flatMap.mpr ⟨(c, k), ?_, ?_⟩))
        · exact Std.TreeMap.mem_toList_iff_getElem?_eq_some.mpr hk
        · refine List.mem_map.mpr ⟨i, Std.TreeMap.mem_keys.mpr ?_, rfl⟩
          exact Std.TreeMap.mem_iff_isSome_getElem?.mpr (by rw [hf]; rfl)
  refine ends_forM (I := fun s' : Session δ => ∀ c i, s'.Clean c i) _ (fun path _ s₂ h₂ => ?_) hclean
  exact (perform_ends _ s₂).mono (fun _ _ h c i => (washes_of_store h).clean (h₂ c i)) fun _ _ _ => trivial

/-- A clean page is not written. -/
lemma writePage_of_clean (h : s.Clean c i) (path : String) : writePage c path i s = (.ok (), s) := by
  rw [writePage, run_bind_ok (run_get s)]
  cases hf : (s.store.caches[c]?).bind (·.frames[i]?) with
  | none => rfl
  | some f =>
      simp only [clean_iff.mp h f hf]
      rfl

/-- A flush that has nothing to write only makes the files durable. -/
theorem flushIn_unwriting (hclean : ∀ c i, s.Clean c i) (o : Schedule) {P : δ → Prop}
    (hP : Device.Unwriting P) (hs : P s.device) : P (flushIn o s).2.device := by
  refine Ends.result (P := fun _ (s' : Session δ) => P s'.device) (Ends.bind_ok (run_get s) ?_)
  -- No page has to be written, so the pages are gone through without any call.
  have hpages : ∀ pages : List (CacheId × String × ℕ),
      (pages.forM fun e => writePage e.1 e.2.1 e.2.2) s = (.ok (), s) := by
    intro pages
    induction pages with
    | nil => rfl
    | cons e rest ih => exact (run_bind_ok (writePage_of_clean (hclean _ _) _) _).trans ih
  exact Ends.bind_ok (hpages _) (ends_forM (I := fun s' : Session δ => P s'.device) _
    (fun path _ s₂ h₂ => perform_keeps (hP.sync path _ h₂)) hs)

end Session

end PageCatalog
