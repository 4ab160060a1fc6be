import Mathlib.Tactic
import PageCatalog.Proofs.Store.Contents

/-!
Access to the pages of a cache.

Each call of a session on an open cache is described by what it says of the page it is
for and by what the other pages show afterwards. A page in memory is there without
fail; a page that has to be loaded may meet an error of the device, and then nothing
has changed.

* `Session.cacheFile_ends_of_steps`, `Session.frame_ends_of_steps`: how a cache is opened and a
  page is had, step by step, for whatever is to be shown of the end.
* `Session.frame_ends`, `Session.view_ends`, `Session.look_ends`: questions to a page
  that the session shows.
* `Session.view_memory`, `Session.edit_memory`: questions and changes in memory.
* `Session.allocate_ok`, `Session.allocate_full`: new pages.
* `Session.free_memory`: freed pages.
-/

namespace PageCatalog

namespace Session

variable {δ α : Type} {c : CacheId} {s s' : Session δ} {id : PageId} {k : CacheFile} {i n : ℕ}
  {p q : Page}

/-! ### Frames -/

/-- A session with a frame put into an open cache. -/
def withFrame (s : Session δ) (c : CacheId) (i : ℕ) (f : Frame) : Session δ :=
  { s with store.caches := s.store.caches.modify c fun k =>
    { k with frames := k.frames.insert i f } }

/-- Putting a page into memory never fails. -/
lemma putFrame_run (c : CacheId) (i : ℕ) (f : Frame) (s : Session δ) :
    putFrame c i f s = (.ok (), s.withFrame c i f) := rfl

/-- The cache is open as before, with one more frame. -/
lemma withFrame_open (hk : s.store.caches[c]? = some k) (i : ℕ) (f : Frame) :
    (s.withFrame c i f).store.caches[c]? = some { k with frames := k.frames.insert i f } := by
  simp [withFrame, hk]

/-- The frames of a cache after one was put in. -/
lemma getElem?_insert_frame (k : CacheFile) (i j : ℕ) (f : Frame) :
    (k.frames.insert i f)[j]? = if i = j then some f else k.frames[j]? := by
  rw [Std.TreeMap.getElem?_insert]
  simp only [compare_eq_iff_eq]

/-- Putting a page into memory makes no new page. -/
lemma next?_withFrame (hk : s.store.caches[c]? = some k) (i : ℕ) (f : Frame) :
    (s.withFrame c i f).next? c = s.next? c := by
  rw [next?, next?, withFrame_open hk, hk]
  rfl

/-- A page of an open cache is in memory, in a given frame. -/
def Holds (s : Session δ) (c : CacheId) (i : ℕ) (p : Page) (f : Frame) : Prop :=
  f.freed = false ∧ f.bytes = p ∧
    ∃ k, s.store.caches[c]? = some k ∧ i < k.next ∧ k.frames[i]? = some f

/-- A page in a given frame is in memory. -/
lemma Holds.memory {f : Frame} (h : s.Holds c i p f) : s.InMemory c i p := by
  obtain ⟨hfreed, hbytes, k, hk, hi, hf⟩ := h
  exact ⟨k, f, hk, hi, hf, hfreed, hbytes⟩

/-- A page that was put into memory is there. -/
lemma holds_withFrame (hk : s.store.caches[c]? = some k) (hi : i < k.next) {f : Frame}
    (hfreed : f.freed = false) : (s.withFrame c i f).Holds c i f.bytes f :=
  ⟨hfreed, rfl, _, withFrame_open hk i f, hi, by rw [getElem?_insert_frame, if_pos rfl]⟩

/-! ### Calls of the device -/

/-- A result that is there already is given. -/
lemma settle_ok {a : α} (s : Session δ) : settle (.ok a) s = (.ok a, s) := rfl

/-- A call of the device leaves the store as it is, also where it fails. -/
lemma perform_ends {σ : Type} (call : DeviceM δ σ) (s : Session δ) :
    Ends (perform call) s (fun _ s' => s'.store = s.store)
      (fun e s' => e.IsIo ∧ s'.store = s.store) := by
  refine Ends.bind (Q := fun _ s' => s'.store = s.store) ?_ ?_
  · exact Ends.of_ok rfl rfl
  · rintro (e | a) s' hs'
    · exact Ends.of_error rfl ⟨⟨e, rfl⟩, hs'⟩
    · exact Ends.of_ok rfl hs'

variable [Device δ] {B : Backing δ}

/-- A frame that is put in leaves the other pages alone. -/
lemma keeps_withFrame (hk : s.store.caches[c]? = some k) (i : ℕ) (f : Frame) :
    s.Keeps B c [i] (s.withFrame c i f) := by
  refine keeps_of_frames hk (withFrame_open hk i f) rfl rfl rfl le_rfl fun j hj _ => ?_
  rw [getElem?_insert_frame, if_neg fun h => hj (by simp [h])]

/-- An open cache is found in the table. -/
lemma cacheFile_open (hk : s.store.caches[c]? = some k) : cacheFile c s = (.ok k, s) := by
  rw [cacheFile, run_bind_ok (run_get s)]
  simp only [hk]
  rfl

/-- A cache that is not open yet is opened call by call. Its file is looked for unless it may be
made, which leaves `I`; then it is attached and measured, which leaves `K`; and the cache comes into
the table if the file is cut into whole pages. -/
lemma cacheFile_ends_of_steps {I : Session δ → Prop} {K : ℕ → Session δ → Prop} {Q : CacheFile → Session δ → Prop}
    {F : Failure → Session δ → Prop} (hk : s.store.caches[c]? = none)
    (hmade : s.store.options.createIfMissing = true → I s)
    (hfound : s.store.options.createIfMissing ≠ true →
      Ends (attempt (Device.length (s.store.pathOf c))) s
        (fun r s₁ => match r with
          | .ok _ => I s₁
          | .error _ => F (.error (missingFile (s.store.pathOf c))) s₁)
        (fun _ _ => False))
    (hmeasure : ∀ s₁, I s₁ → Ends (do
      perform (Device.attach (s.store.pathOf c))
      perform (Device.size (s.store.pathOf c))) s₁ K F)
    (hcut : ∀ n s₂, K n s₂ → ¬ s.size ∣ n →
      F (.error (.corrupted (.fileSize (s.store.pathOf c) n s.size))) s₂)
    (hwhole : ∀ n s₂ k, K n s₂ → s.size ∣ n →
      k = { path := s.store.pathOf c, next := max (n / s.size) 1 % 0x100000000 } →
      Q k { s₂ with store.caches := s₂.store.caches.insert c k }) :
    Ends (cacheFile c) s Q F := by
  -- from the state in which the file is attached
  have hopen : ∀ s₁, I s₁ → Ends (do
      perform (Device.attach (s.store.pathOf c))
      let size ← perform (Device.size (s.store.pathOf c))
      if size % s.size ≠ 0 then refuse (.corrupted (.fileSize (s.store.pathOf c) size s.size))
      let k : CacheFile := { path := s.store.pathOf c, next := max (size / s.size) 1 % 0x100000000 }
      modify fun s => { s with store.caches := s.store.caches.insert c k }
      return k : SessionM δ CacheFile) s₁ Q F := by
    intro s₁ h₁
    rw [← bind_assoc]
    refine (hmeasure s₁ h₁).bind fun n s₂ h₂ => ?_
    by_cases hn : n % s.size ≠ 0
    · simp only [if_pos hn]
      exact Ends.of_error rfl (hcut n s₂ h₂ fun hdvd => hn (Nat.mod_eq_zero_of_dvd hdvd))
    · simp only [if_neg hn]
      exact Ends.of_ok rfl (hwhole n s₂ _ h₂ (Nat.dvd_of_mod_eq_zero (not_not.mp hn)) rfl)
  refine Ends.bind_ok (run_get s) ?_
  simp only [hk]
  split
  · rename_i hcreate
    exact hopen s (hmade hcreate)
  · rename_i hcreate
    refine ((hfound hcreate).mono_error fun _ _ h => h.elim).bind ?_
    rintro (e | n) s₁ h₁
    · exact Ends.of_error rfl h₁
    · exact hopen s₁ h₁

/-- The number of pages of an open cache. -/
lemma pageCount_run (hn : s.next? c = some n) : pageCount c s = (.ok n, s) := by
  obtain ⟨k, hk, rfl⟩ := Option.map_eq_some_iff.mp hn
  rw [pageCount, run_bind_ok (cacheFile_open hk)]
  rfl

/-- Loading a page leaves the store as it is. It fails only where the device does. -/
lemma load_ends (path : String) (i : ℕ) (s : Session δ) :
    Ends (load path i) s (fun _ s' => s'.store = s.store)
      (fun e s' => e.IsIo ∧ s'.store = s.store) := by
  refine Ends.bind_ok (show pageSize s = (.ok s.size, s) from rfl) ?_
  refine (perform_ends _ s).bind fun n s' hs' => ?_
  split
  · exact (perform_ends _ s').mono (fun _ _ h => h.trans hs') fun _ _ h => ⟨h.1, h.2.trans hs'⟩
  · exact Ends.of_ok rfl hs'

/-- A page is refused behind the last one of its cache and once it was freed. A page in memory is
had as it is there; any other one is loaded and put there. -/
lemma frame_ends_of_steps {P : CacheFile → Session δ → Prop} {Q : Frame → Session δ → Prop}
    {F : Failure → Session δ → Prop} (hopen : Ends (cacheFile c) s P F)
    (hbehind : ∀ k s₁, P k s₁ → k.next ≤ id.index → F (.error (.pageNotFound id c)) s₁)
    (hfreed : ∀ k s₁ f, P k s₁ → k.frames[id.index]? = some f → f.freed = true →
      F (.error (.pageNotFound id c)) s₁)
    (hheld : ∀ k s₁ f, P k s₁ → id.index < k.next → k.frames[id.index]? = some f → f.freed = false →
      Q f s₁)
    (hload : ∀ k s₁, P k s₁ → id.index < k.next → k.frames[id.index]? = none →
      Ends (load k.path id.index) s₁ (fun bytes s₂ => Q { id, bytes, dirty := false }
        (s₂.withFrame c id.index { id, bytes, dirty := false })) F) :
    Ends (frame c id) s Q F := by
  refine hopen.bind fun k s₁ h₁ => ?_
  by_cases hi : k.next ≤ id.index
  · simp only [if_pos hi]
    exact Ends.of_error rfl (hbehind k s₁ h₁ hi)
  · simp only [if_neg hi]
    cases hf : k.frames[id.index]? with
    | some f =>
        by_cases hfree : f.freed = true
        · simp only [if_pos hfree]
          exact Ends.of_error rfl (hfreed k s₁ f h₁ hf hfree)
        · simp only [if_neg hfree]
          exact Ends.of_ok rfl (hheld k s₁ f h₁ (Nat.not_le.mp hi) hf (Bool.eq_false_of_not_eq_true hfree))
    | none =>
        exact (hload k s₁ h₁ (Nat.not_le.mp hi) hf).bind fun bytes s₂ h₂ =>
          Ends.bind_ok (putFrame_run c id.index _ s₂) (Ends.of_ok rfl h₂)

/-- Loading a page changes nothing that is shown. -/
lemma load_quiet {path : String} {r : Except Failure Page} (hload : load path i s = (r, s')) :
    s'.store = s.store ∧ s.Quiet B c s' := by
  have hstore : s'.store = s.store := by
    have hend := load_ends path i s
    cases r with
    | ok _ => exact hend.ok hload
    | error _ => exact (hend.error hload).2
  refine ⟨hstore, ⟨by rw [hstore], fun hn => ?_, ?_, ?_, fun _ _ _ => ?_, fun _ => ?_⟩,
    by rw [next?, next?, hstore]⟩
  · exact ⟨_, by rw [next?, hstore]; exact hn, le_rfl⟩
  · rintro j q - ⟨k, f, hk, hrest⟩
    exact ⟨k, f, by rw [hstore]; exact hk, hrest⟩
  · rintro j q - (⟨k, f, hk, hrest⟩ | ⟨k, hk, hj, hnone, hq⟩)
    · exact .inl ⟨k, f, by rw [hstore]; exact hk, hrest⟩
    · refine .inr ⟨k, by rw [hstore]; exact hk, hj, hnone, ?_⟩
      rw [Session.size, hstore]
      exact B.load_keeps hload hq
  · rintro ⟨k, f, hk, hrest⟩
    exact ⟨k, f, by rw [← hstore]; exact hk, hrest⟩
  · rintro ⟨k, f, hk, hrest⟩
    exact ⟨k, f, by rw [hstore]; exact hk, hrest⟩

omit [Device δ] in
/-- A page that was put into memory is freed if its frame says so. -/
lemma freed_withFrame (hk : s.store.caches[c]? = some k) {f : Frame}
    (h : (s.withFrame c i f).Freed c i) : f.freed = true := by
  obtain ⟨k', g, hk', -, hg, hfreed⟩ := h
  rw [withFrame_open hk] at hk'
  cases hk'
  rw [getElem?_insert_frame, if_pos rfl] at hg
  cases hg
  exact hfreed

/-- A frame with the same bytes shows the same. -/
lemma quiet_withFrame {f g : Frame} (hk : s.store.caches[c]? = some k)
    (hg : k.frames[i]? = some g) (hbytes : f.bytes = g.bytes) (hfreed : f.freed = g.freed) :
    s.Quiet B c (s.withFrame c i f) := by
  have hkeeps := keeps_withFrame (B := B) hk i f
  -- The page of the frame shows the bytes that it showed; the others are left alone.
  have hmemory : ∀ {j q}, s.InMemory c j q → (s.withFrame c i f).InMemory c j q := by
    intro j q hq
    by_cases hj : j = i
    · subst hj
      obtain ⟨k₁, f₁, hk₁, hi, hf₁, hfreed₁, rfl⟩ := hq
      obtain rfl : k = k₁ := Option.some.inj (hk.symm.trans hk₁)
      obtain rfl : g = f₁ := Option.some.inj (hg.symm.trans hf₁)
      rw [← hbytes]
      exact (holds_withFrame hk hi (hfreed.trans hfreed₁)).memory
    · exact hkeeps.memory (by simpa using hj) hq
  refine ⟨⟨hkeeps.options, hkeeps.next_le, fun _ hq => hmemory hq, fun {j q} _ hq => ?_,
    fun {n j} hn hlt _ hfreed' => ?_, fun {j} _ hfreed' => ?_⟩, next?_withFrame hk i f⟩
  · by_cases hj : j = i
    · subst hj
      obtain hq | ⟨k₁, hk₁, -, hnone, -⟩ := hq
      · exact (hmemory hq).shows
      · obtain rfl : k = k₁ := Option.some.inj (hk.symm.trans hk₁)
        rw [hg] at hnone
        cases hnone
    · exact hkeeps.shows (by simpa using hj) hq
  · by_cases hj : j = i
    · subst hj
      rw [next?, hk] at hn
      cases hn
      exact ⟨k, g, hk, hlt, hg, hfreed.symm.trans (freed_withFrame hk hfreed')⟩
    · exact hkeeps.freed hn hlt (by simpa using hj) hfreed'
  · by_cases hj : j = i
    · subst hj
      obtain ⟨k₁, f₁, hk₁, hlt, hf₁, hfreed₁⟩ := hfreed'
      obtain rfl : k = k₁ := Option.some.inj (hk.symm.trans hk₁)
      obtain rfl : g = f₁ := Option.some.inj (hg.symm.trans hf₁)
      exact ⟨_, f, withFrame_open hk j f, hlt, by rw [getElem?_insert_frame, if_pos rfl],
        hfreed.trans hfreed₁⟩
    · exact hkeeps.still (by simpa using hj) hfreed'

/-- A loaded page that is put into memory shows what it showed on the device. -/
lemma quiet_loaded (hk : s.store.caches[c]? = some k) (hi : i < k.next)
    (hnone : k.frames[i]? = none) (hload : load k.path i s = (.ok p, s')) {f : Frame}
    (hfreed : f.freed = false) (hbytes : f.bytes = p) : s.Quiet B c (s'.withFrame c i f) := by
  obtain ⟨hstore, hquiet⟩ := load_quiet (B := B) (c := c) hload
  have hk' : s'.store.caches[c]? = some k := by rw [hstore]; exact hk
  have hkeeps := hquiet.then (keeps_withFrame (B := B) hk' i f)
  -- The page was in no frame before, so it was neither in memory nor freed.
  refine ⟨⟨hkeeps.options, hkeeps.next_le, ?_, ?_, ?_, ?_⟩, (next?_withFrame hk' i f).trans hquiet.next⟩
  · intro j q _ hq
    refine hkeeps.memory (fun hj => ?_) hq
    obtain rfl := List.mem_singleton.mp hj
    obtain ⟨k₁, f₁, hk₁, -, hf₁, -⟩ := hq
    obtain rfl : k = k₁ := Option.some.inj (hk.symm.trans hk₁)
    rw [hnone] at hf₁
    cases hf₁
  · intro j q _ hq
    by_cases hj : j = i
    · subst hj
      obtain ⟨k₁, f₁, hk₁, -, hf₁, -⟩ | ⟨k₁, hk₁, -, -, hhas⟩ := hq
      · obtain rfl : k = k₁ := Option.some.inj (hk.symm.trans hk₁)
        rw [hnone] at hf₁
        cases hf₁
      · obtain rfl : k = k₁ := Option.some.inj (hk.symm.trans hk₁)
        obtain rfl := B.load_ok hhas hload
        have := holds_withFrame hk' hi hfreed
        rw [hbytes] at this
        exact this.memory.shows
    · exact hkeeps.shows (by simpa using hj) hq
  · intro n j hn hlt _ hfreed'
    by_cases hj : j = i
    · subst hj
      rw [freed_withFrame hk' hfreed'] at hfreed
      cases hfreed
    · exact hkeeps.freed hn hlt (by simpa using hj) hfreed'
  · intro j _ hfreed'
    refine hkeeps.still (fun hj => ?_) hfreed'
    obtain rfl := List.mem_singleton.mp hj
    obtain ⟨k₁, f₁, hk₁, -, hf₁, -⟩ := hfreed'
    obtain rfl : k = k₁ := Option.some.inj (hk.symm.trans hk₁)
    rw [hnone] at hf₁
    cases hf₁

/-- A page in memory is found there. -/
lemma frame_memory (h : s.InMemory c id.index p) :
    ∃ f, frame c id s = (.ok f, s) ∧ s.Holds c id.index p f := by
  obtain ⟨k, f, hk, hi, hf, hfreed, hbytes⟩ := h
  refine ⟨f, ?_, hfreed, hbytes, k, hk, hi, hf⟩
  rw [frame, run_bind_ok (cacheFile_open hk)]
  simp only [if_neg (Nat.not_le.mpr hi), hf, hfreed]
  rfl

/-- A page that is shown is in memory after it was asked for, unless the device failed; it
is not in memory then. -/
lemma frame_ends (h : s.Shows B c id.index p) :
    Ends (frame c id) s (fun f s' => s'.Holds c id.index p f ∧ s.Quiet B c s')
      (fun e s' => B.Fails e ∧ s.Quiet B c s' ∧ ∀ q, ¬ s'.InMemory c id.index q) := by
  -- The page is in memory, or the device has it.
  obtain h | ⟨k, hk, hi, hnone, hhas⟩ := h
  · obtain ⟨f, hframe, hholds⟩ := frame_memory h
    exact Ends.of_ok hframe ⟨hholds, .refl s⟩
  · refine Ends.bind_ok (cacheFile_open hk) ?_
    simp only [if_neg (Nat.not_le.mpr hi), hnone]
    have hend := load_ends k.path id.index s
    rcases hload : load k.path id.index s with ⟨e | bytes, s₁⟩
    · refine Ends.of_error (run_bind_error hload _)
        ⟨⟨_, _, _, _, _, hhas, hload⟩, (load_quiet hload).2, ?_⟩
      rintro q ⟨k', f, hk', -, hf, -⟩
      rw [(hend.error hload).2] at hk'
      obtain rfl : k = k' := Option.some.inj (hk.symm.trans hk')
      rw [hnone] at hf
      cases hf
    · obtain rfl := B.load_ok hhas hload
      set f : Frame := { id, bytes, dirty := false } with hfdef
      have hk' : s₁.store.caches[c]? = some k := by rw [hend.ok hload]; exact hk
      refine Ends.bind_ok hload (Ends.bind_ok (putFrame_run c id.index f s₁) ?_)
      exact Ends.of_ok (run_pure f _)
        ⟨holds_withFrame hk' hi (f := f) rfl, quiet_loaded hk hi hnone hload rfl rfl⟩

/-! ### Questions and changes -/

/-- Whatever a computation on a page says, its page is put back into memory. -/
lemma edit_ends_of_frame {P : Frame → Session δ → Prop} {R : Session δ → Prop} {m : PageM α}
    (hframe : Ends (frame c id) s P fun _ => R)
    (hput : ∀ f s' bytes, P f s' → R (s'.withFrame c id.index { f with bytes, dirty := true })) :
    Ends (edit c id m) s (fun _ => R) fun _ => R := by
  refine hframe.bind fun f s' h => ?_
  rcases m.runOn f.bytes with ⟨r, bytes⟩
  refine Ends.bind_ok (putFrame_run c id.index _ s') ?_
  cases r with
  | ok a => exact Ends.of_ok (settle_ok _) (hput f s' bytes h)
  | error e => exact Ends.of_error rfl (hput f s' bytes h)

/-- Freeing a page puts a frame of zeros in its place; the meta page is refused before. -/
lemma free_ends_of_frame {P : Frame → Session δ → Prop} {R : Session δ → Prop} (hs : R s)
    (hframe : Ends (frame c id) s P fun _ => R)
    (hput : ∀ f s', id.index ≠ 0 → P f s' → R (s'.withFrame c id.index
      { f with bytes := .zeros f.bytes.size, dirty := true, freed := true })) :
    Ends (free c id) s (fun _ => R) fun _ => R := by
  rw [free]
  split
  · exact Ends.of_error rfl hs
  · rename_i hid
    exact hframe.bind fun f s' h => Ends.of_ok (putFrame_run c id.index _ s') (hput f s' hid h)

/-- A question to a page in memory is answered by its bytes. -/
lemma view_memory {f : Page → Except Failure α} (h : s.InMemory c id.index p) :
    view c id f s = (f p, s) := by
  obtain ⟨g, hframe, -, hbytes, -⟩ := frame_memory h
  rw [view, run_bind_ok hframe, hbytes]
  cases f p <;> rfl

/-- A question that a shown page answers, unless it is not in memory and the device fails. -/
lemma view_ends_absent {f : Page → Except Failure α} {a : α} (h : s.Shows B c id.index p)
    (hf : f p = .ok a) :
    Ends (view c id f) s (fun b s' => b = a ∧ s.Quiet B c s' ∧ s'.InMemory c id.index p)
      (fun e s' => B.Fails e ∧ s.Quiet B c s' ∧ ∀ q, ¬ s'.InMemory c id.index q) := by
  refine (frame_ends h).bind fun g s' ⟨hholds, hquiet⟩ => ?_
  rw [hholds.2.1, hf]
  exact Ends.of_ok (settle_ok s') ⟨rfl, hquiet, hholds.memory⟩

/-- A question that a shown page answers. -/
lemma view_ends {f : Page → Except Failure α} {a : α} (h : s.Shows B c id.index p)
    (hf : f p = .ok a) :
    Ends (view c id f) s (fun b s' => b = a ∧ s.Quiet B c s' ∧ s'.InMemory c id.index p)
      (fun e s' => B.Fails e ∧ s.Quiet B c s') :=
  (view_ends_absent h hf).mono_error fun _ _ h => ⟨h.1, h.2.1⟩

/-- A change of a page in memory. -/
lemma edit_memory {m : PageM α} {r : Except Failure α} (h : s.InMemory c id.index p)
    (hm : m p = (r, q)) :
    ∃ s', edit c id m s = (r, s') ∧ s'.InMemory c id.index q ∧ s.Keeps B c [id.index] s' ∧
      s'.next? c = s.next? c := by
  obtain ⟨f, hframe, hfreed, hbytes, k, hk, hi, -⟩ := frame_memory h
  set g : Frame := { f with bytes := q, dirty := true } with hg
  refine ⟨s.withFrame c id.index g, ?_, ?_, keeps_withFrame hk _ g, next?_withFrame hk _ g⟩
  · rw [edit, run_bind_ok hframe, hbytes, PageM.runOn, hm]
    simp only
    rw [run_bind_ok (putFrame_run c id.index g s)]
    cases r <;> rfl
  · exact (holds_withFrame hk hi (f := g) hfreed).memory

/-! The meta page is the one of index 0. -/

/-- A question to the meta page. -/
lemma view_meta_ends {f : Page → Except Failure α} {a : α} (h : s.Shows B c 0 p) (hf : f p = .ok a) :
    Ends (view c .metaPage f) s (fun b s' => b = a ∧ s.Quiet B c s' ∧ s'.InMemory c 0 p)
      (fun e s' => B.Fails e ∧ s.Quiet B c s') :=
  view_ends (show s.Shows B c PageId.metaPage.index p from h) hf

/-- A change of the meta page in memory. -/
lemma edit_meta_memory {m : PageM α} {r : Except Failure α} (h : s.InMemory c 0 p)
    (hm : m p = (r, q)) :
    ∃ s', edit c .metaPage m s = (r, s') ∧ s'.InMemory c 0 q ∧ s.Keeps B c [0] s' ∧
      s'.next? c = s.next? c :=
  edit_memory (show s.InMemory c PageId.metaPage.index p from h) hm

/-- A question asked as if to change the page. -/
lemma look_ends {f : Page → Except Failure α} {a : α} (h : s.Shows B c id.index p)
    (hf : f p = .ok a) :
    Ends (edit c id (.look f)) s (fun b s' => b = a ∧ s.Quiet B c s' ∧ s'.InMemory c id.index p)
      (fun e s' => B.Fails e ∧ s.Quiet B c s') := by
  refine ((frame_ends h).mono_error fun _ _ h => ⟨h.1, h.2.1⟩).bind
    fun g s' ⟨hholds, hquiet⟩ => ?_
  obtain ⟨hfreed, hbytes, k, hk, hi, hframe⟩ := hholds
  rw [PageM.runOn, PageM.look_ok (hbytes ▸ hf)]
  set g' : Frame := { g with bytes := g.bytes, dirty := true } with hg'
  refine Ends.bind_ok (putFrame_run c id.index g' s') (Ends.of_ok (settle_ok _) ⟨rfl, ?_, ?_⟩)
  · exact hquiet.trans (quiet_withFrame hk hframe rfl rfl)
  · have := (holds_withFrame (f := g') hk hi hfreed).memory
    rwa [show g'.bytes = p from hbytes] at this

/-! ### New pages and freed pages -/

/-- The next page of a cache is full of zeros. -/
lemma allocate_ok (hn : s.next? c = some n) (hlimit : n < CacheFile.indexLimit)
    (partition : UInt16) (space : Space) :
    ∃ s', allocate c partition space s = (.ok (PageId.make partition space n), s') ∧
      s'.InMemory c n (Page.zeros s.size) ∧ s.Keeps B c [] s' ∧ s'.next? c = some (n + 1) := by
  obtain ⟨k, hk, rfl⟩ := Option.map_eq_some_iff.mp hn
  set f : Frame :=
    { id := PageId.make partition space k.next, bytes := Page.zeros s.size, dirty := true } with hf
  set k' : CacheFile := { k with next := k.next + 1, frames := k.frames.insert k.next f } with hkdef
  set s' : Session δ := { s with store.caches := s.store.caches.modify c fun k =>
    { k with next := k.next + 1, frames := k.frames.insert k.next f } } with hs'
  have hk' : s'.store.caches[c]? = some k' := by simp [hs', hk, hkdef]
  refine ⟨s', ?_, ⟨k', f, hk', Nat.lt_succ_self _, ?_, rfl, rfl⟩, ?_, by rw [next?, hk']; rfl⟩
  · rw [allocate, run_bind_ok (cacheFile_open hk), if_neg (by omega)]
    rfl
  · rw [hkdef, getElem?_insert_frame, if_pos rfl]
  · refine keeps_of_frames hk hk' rfl rfl rfl (Nat.le_succ _) fun j _ hj => ?_
    rw [hkdef, getElem?_insert_frame, if_neg (by omega)]

/-- With all indexes given away there is no room for another page. -/
lemma allocate_full (hn : s.next? c = some n) (hlimit : CacheFile.indexLimit ≤ n)
    (partition : UInt16) (space : Space) :
    allocate c partition space s = (.error (.error (.outOfSpace c)), s) := by
  obtain ⟨k, hk, rfl⟩ := Option.map_eq_some_iff.mp hn
  rw [allocate, run_bind_ok (cacheFile_open hk), if_pos hlimit]
  rfl

/-- A page in memory other than the meta page can be freed. -/
lemma free_memory (h : s.InMemory c id.index p) (hmeta : id.index ≠ 0) :
    ∃ s', free c id s = (.ok (), s') ∧ s.Keeps B c [id.index] s' ∧ s'.Freed c id.index ∧
      s'.next? c = s.next? c := by
  obtain ⟨f, hframe, hfreed, hbytes, k, hk, hi, -⟩ := frame_memory h
  set g : Frame := { f with bytes := Page.zeros f.bytes.size, dirty := true, freed := true } with hg
  refine ⟨s.withFrame c id.index g, ?_, keeps_withFrame hk _ g, ?_, next?_withFrame hk _ g⟩
  · rw [free, if_neg hmeta]
    exact (run_bind_ok hframe _).trans (putFrame_run c id.index g s)
  · exact ⟨_, g, withFrame_open hk _ g, hi, by rw [getElem?_insert_frame, if_pos rfl], rfl⟩

/-! ### Pages of others -/

/-- Asking for any page of an open cache changes nothing that is shown. -/
lemma frame_quiet (hk : s.store.caches[c]? = some k) (id : PageId) :
    Ends (frame c id) s
      (fun f s' => s.Quiet B c s' ∧ ∃ k', s'.store.caches[c]? = some k' ∧ id.index < k'.next ∧
        k'.frames[id.index]? = some f)
      (fun _ s' => s.Quiet B c s') := by
  refine frame_ends_of_steps (P := fun k₁ s₁ => k₁ = k ∧ s₁ = s) (Ends.of_ok (cacheFile_open hk) ⟨rfl, rfl⟩)
    ?_ ?_ ?_ ?_
  · rintro _ _ ⟨-, rfl⟩ -
    exact .refl _
  · rintro _ _ f ⟨-, rfl⟩ - -
    exact .refl _
  · rintro _ _ f ⟨rfl, rfl⟩ hi hf -
    exact ⟨.refl _, _, hk, hi, hf⟩
  · rintro k₁ s₁ ⟨rfl, rfl⟩ hi hf
    rcases hload : load k₁.path id.index s₁ with ⟨e | bytes, s₂⟩
    · exact Ends.of_error hload (load_quiet hload).2
    · have hk₂ : s₂.store.caches[c]? = some k₁ := by
        rw [(load_quiet (B := B) (c := c) hload).1]
        exact hk
      obtain ⟨-, -, hholds⟩ := holds_withFrame hk₂ hi (f := { id, bytes, dirty := false }) rfl
      exact Ends.of_ok hload ⟨quiet_loaded hk hi hf hload rfl rfl, hholds⟩

/-- A change of any page of an open cache leaves the others alone. -/
lemma edit_keeps (hk : s.store.caches[c]? = some k) (id : PageId) (m : PageM α) :
    Ends (edit c id m) s (fun _ s' => s.Keeps B c [id.index] s' ∧ s'.next? c = s.next? c)
      (fun _ s' => s.Keeps B c [id.index] s' ∧ s'.next? c = s.next? c) := by
  refine edit_ends_of_frame ((frame_quiet (B := B) hk id).mono_error fun e s' h => ?_) ?_
  · exact ⟨h.then (.refl s'), h.next⟩
  · rintro f s' bytes ⟨hquiet, k', hk', -, -⟩
    exact ⟨hquiet.then (keeps_withFrame hk' id.index _), (next?_withFrame hk' id.index _).trans hquiet.next⟩

/-- Freeing any page of an open cache leaves the others alone. -/
lemma free_keeps (hk : s.store.caches[c]? = some k) (id : PageId) :
    Ends (free c id) s (fun _ s' => s.Keeps B c [id.index] s' ∧ s'.next? c = s.next? c)
      (fun _ s' => s.Keeps B c [id.index] s' ∧ s'.next? c = s.next? c) := by
  refine free_ends_of_frame ⟨.refl s, rfl⟩ ((frame_quiet (B := B) hk id).mono_error fun e s' h => ?_) ?_
  · exact ⟨h.then (.refl s'), h.next⟩
  · rintro f s' - ⟨hquiet, k', hk', -, -⟩
    exact ⟨hquiet.then (keeps_withFrame hk' id.index _), (next?_withFrame hk' id.index _).trans hquiet.next⟩

/-! ### Writing back -/

/-- Pages in memory depend on the open cache alone. -/
lemma quiet_none (hcache : s'.store.caches[c]? = s.store.caches[c]?)
    (hoptions : s'.store.options = s.store.options) : s.Quiet (.none δ) c s' := by
  -- Without a device behind it only what is in memory is shown.
  have hmemory : ∀ {i p}, s.InMemory c i p → s'.InMemory c i p := by
    rintro i p ⟨k, f, hk, hrest⟩
    exact ⟨k, f, hcache.trans hk, hrest⟩
  refine ⟨⟨hoptions, fun hn => ⟨_, by rw [next?, hcache]; exact hn, le_rfl⟩, fun _ => hmemory,
    fun _ hp => ?_, fun _ _ _ => ?_, fun _ => ?_⟩, by rw [next?, next?, hcache]⟩
  · exact shows_none.mpr (hmemory (shows_none.mp hp))
  · rintro ⟨k, f, hk, hrest⟩
    exact ⟨k, f, hcache.symm.trans hk, hrest⟩
  · rintro ⟨k, f, hk, hrest⟩
    exact ⟨k, f, hcache.trans hk, hrest⟩

/-- A call of the device changes nothing that is in memory. -/
lemma perform_quiet {σ : Type} (call : DeviceM δ σ) (s : Session δ) :
    Ends (perform call) s (fun _ s' => s.Quiet (.none δ) c s' ∧ s'.store = s.store)
      (fun _ s' => s.Quiet (.none δ) c s') := by
  refine (perform_ends call s).mono (fun _ s' h => ⟨?_, h⟩) fun _ s' h => ?_
  · exact quiet_none (by rw [h]) (by rw [h])
  · exact quiet_none (by rw [h.2]) (by rw [h.2])

/-- Writing pages to a file, of this cache or another one, changes nothing that is shown. -/
lemma writeBack_quiet (c c' : CacheId) (path : String) (indexes : List ℕ) (s : Session δ) :
    Ends (writeBack c' path indexes) s (fun _ s' => s.Quiet (.none δ) c s')
      (fun _ s' => s.Quiet (.none δ) c s') := by
  -- A page that is written gets the same frame, but for its mark; a refused write is the end.
  induction indexes generalizing s with
  | nil => exact Quiet.refl s
  | cons i rest ih =>
      have hrest : ∀ s', s.Quiet (.none δ) c s' →
          Ends (writeBack c' path rest) s' (fun _ s'' => s.Quiet (.none δ) c s'')
            (fun _ s'' => s.Quiet (.none δ) c s'') := fun s' h =>
        (ih s').mono (fun _ _ h' => h.trans h') fun _ _ h' => h.trans h'
      refine Ends.bind_ok (run_get s) ?_
      cases hf : (s.store.caches[c']?).bind (·.frames[i]?) with
      | none =>
          simp only
          exact hrest s (.refl s)
      | some f =>
          simp only
          split
          · refine Ends.bind_ok (show pageSize s = (.ok s.size, s) from rfl) ?_
            refine (perform_quiet _ s).bind fun _ s' ⟨hquiet, hs'⟩ => ?_
            refine Ends.bind_ok (putFrame_run c' i _ s') (hrest _ (hquiet.trans ?_))
            obtain ⟨k, hk, hg⟩ := Option.bind_eq_some_iff.mp hf
            rw [← hs'] at hk
            by_cases hc : c' = c
            · subst hc
              exact quiet_withFrame hk hg rfl rfl
            · refine quiet_none ?_ rfl
              rw [withFrame, Std.TreeMap.getElem?_modify,
                if_neg fun h => hc (Std.LawfulEqCmp.eq_of_compare h)]
          · exact hrest s (.refl s)

/-- A flush, whole or broken off, changes nothing that is shown. -/
lemma flush_quiet (c : CacheId) (s : Session δ) :
    Ends flush s (fun _ s' => s.Quiet (.none δ) c s') (fun _ s' => s.Quiet (.none δ) c s') := by
  refine Ends.bind_ok (run_get s) ?_
  refine Ends.bind (Q := fun _ s' => s.Quiet (.none δ) c s') ?_ fun _ s' hs' => ?_
  · refine ends_forM (I := fun s' => s.Quiet (.none δ) c s') _ (fun a _ s' hs' => ?_) (.refl s)
    exact (writeBack_quiet c a.1 a.2.path a.2.frames.keys s').mono (fun _ _ h => hs'.trans h)
      fun _ _ h => hs'.trans h
  · refine ends_forM (I := fun s' => s.Quiet (.none δ) c s') _ (fun a _ s'' hs'' => ?_) hs'
    exact (perform_quiet (Device.sync a.2.path) s'').mono (fun _ _ h => hs''.trans h.1)
      fun _ _ h => hs''.trans h

end Session

/-- Only the device keeps a page from being loaded. -/
lemma Backing.Fails.isIo {δ : Type} [Device δ] {B : Backing δ} {e : Failure} (h : B.Fails e) :
    e.IsIo := by
  obtain ⟨path, i, s, s', p, -, hload⟩ := h
  exact ((Session.load_ends path i s).error hload).1

end PageCatalog
