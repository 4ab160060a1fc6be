import Mathlib.Tactic
import PageCatalog.Proofs.Store.Calls

/-!
Computations that keep to one cache.

Whatever is built from calls for the pages of one cache changes that cache alone, answers
by that cache alone, and keeps whatever each of these calls keeps. So nothing of this has to
be said of the operations of trees and directories one by one: they are built so.

* `PageM.Steady`: computations that leave a page as long as it was.
* `Session.Within`: computations built from calls for the pages of a cache.
* `Within.keeps`: they keep what the calls keep; `Parts.steps`: what the calls are made of.
* `Within.couples`: they answer alike where the calls do.
* `Session.Minds`, `Within.minds`: no file and no other cache changes.
* `Within.runs`, `Within.framed`: the cache goes with its file, and has frames for pages only.
-/

namespace PageCatalog

/-! ### Pages keep their length -/

namespace PageM

variable {α β : Type}

/-- A page is as long afterwards as it was. -/
def Steady (m : PageM α) : Prop := ∀ p : Page, (m p).2.size = p.size

/-- A result that is there already leaves the page as it is. -/
lemma steady_pure (a : α) : Steady (pure a) := fun _ => rfl

/-- A failure leaves the page as it is. -/
lemma steady_throw (e : Failure) : Steady (throw e : PageM α) := fun _ => rfl

/-- Two steady computations one after the other. -/
lemma Steady.bind {m : PageM α} {f : α → PageM β} (hm : m.Steady) (hf : ∀ a, (f a).Steady) :
    Steady (m >>= f) := by
  intro p
  have hp := hm p
  rcases hrun : m p with ⟨e | a, q⟩ <;> rw [hrun] at hp
  · rwa [run_bind_error hrun]
  · rw [run_bind_ok hrun, hf a q, hp]

/-- A look at a page leaves it as it is. -/
lemma steady_look (f : Page → Except Failure α) : Steady (look f) := fun _ => rfl

/-- A change that keeps the length where it is made is steady, since a refused one changes
nothing. -/
lemma steady_change {f : Page → Except Failure Page} (hf : ∀ p q, f p = .ok q → q.size = p.size) :
    Steady (change f) := by
  intro p
  rw [change]
  split
  · rename_i q hq
    exact hf p q hq
  · rfl

end PageM

namespace Session

variable {δ α β : Type}

/-! ### Computations on the pages of a cache -/

/-- A computation that does not fail where another one does; it gives the failure instead. -/
def caught (m : SessionM δ α) : SessionM δ (Except Failure α) := fun s => (.ok (m s).1, (m s).2)

variable [Device δ]

/-- Computations that are built from calls for the pages of a cache. -/
inductive Within (c : CacheId) : {α : Type} → SessionM δ α → Prop
  | settle {α : Type} (r : Except Failure α) : Within c (settle r)
  | bind {α β : Type} {m : SessionM δ α} {f : α → SessionM δ β} (hm : Within c m)
      (hf : ∀ a, Within c (f a)) : Within c (m >>= f)
  | caught {α : Type} {m : SessionM δ α} (hm : Within c m) : Within c (caught m)
  | cacheFile : Within c (cacheFile c)
  | frame (id : PageId) : Within c (frame c id)
  | edit {α : Type} (id : PageId) {m : PageM α} (hm : m.Steady) : Within c (edit c id m)
  | allocate (partition : UInt16) (space : Space) : Within c (allocate c partition space)
  | free (id : PageId) : Within c (free c id)

namespace Within

variable {c : CacheId} {m : SessionM δ α}

/-- A result that is there already needs no call. -/
lemma pure (a : α) : Within c (pure a : SessionM δ α) := settle (.ok a)

/-- A failure needs no call. -/
lemma throw (e : Failure) : Within c (throw e : SessionM δ α) := settle (.error e)

/-- The result of a computation may be reshaped. -/
lemma map (hm : Within c m) (f : α → β) : Within c (f <$> m) := by
  rw [← bind_pure_comp]
  exact hm.bind fun a => pure (f a)

/-- Looking at a page is loading it and looking at its bytes. -/
lemma view (id : PageId) (f : Page → Except Failure α) :
    Within c (Session.view c id f : SessionM δ α) :=
  (frame id).bind fun g => settle (f g.bytes)

/-- The number of pages is asked of the open cache. -/
lemma pageCount : Within c (Session.pageCount c : SessionM δ ℕ) := cacheFile.bind fun k => pure k.next

/-- The number of freed pages is asked of the open cache. -/
lemma freedCount : Within c (Session.freedCount c : SessionM δ ℕ) :=
  cacheFile.bind fun k => pure k.freedCount

/-- One of two computations, by a condition. -/
lemma ite {p : Prop} [Decidable p] {m m' : SessionM δ α} (hm : Within c m) (hm' : Within c m') :
    Within c (if p then m else m') := by
  split
  · exact hm
  · exact hm'

end Within

/-! ### What they keep -/

/-- A relation that the calls for the pages of a cache keep. -/
structure Steps (c : CacheId) (R : Session δ → Session δ → Prop) : Prop where
  refl : ∀ s, R s s
  trans : ∀ {s s' s''}, R s s' → R s' s'' → R s s''
  cacheFile : ∀ s, R s (cacheFile c s).2
  frame : ∀ id s, R s (frame c id s).2
  edit : ∀ {α : Type} (id : PageId) {m : PageM α}, m.Steady → ∀ s, R s (edit c id m s).2
  allocate : ∀ partition space s, R s (allocate c partition space s).2
  free : ∀ id s, R s (free c id s).2

/-- What the calls keep, a computation that is built from them keeps. -/
theorem Within.keeps {c : CacheId} {m : SessionM δ α} (hm : Within c m)
    {R : Session δ → Session δ → Prop} (hR : Steps c R) (s : Session δ) : R s (m s).2 := by
  -- By induction on how the computation is built. A failure ends it in the state of the call that
  -- failed, which the relation holds of as well.
  induction hm generalizing s with
  | settle r => cases r <;> exact hR.refl s
  | @bind _ _ m f _ _ ihm ihf =>
      rcases hrun : m s with ⟨e | a, s'⟩
      · rw [run_bind_error hrun]
        have := ihm s
        rwa [hrun] at this
      · rw [run_bind_ok hrun]
        have := ihm s
        rw [hrun] at this
        exact hR.trans this (ihf a s')
  | caught _ ih => exact ih s
  | cacheFile => exact hR.cacheFile s
  | frame id => exact hR.frame id s
  | edit id hm => exact hR.edit id hm s
  | allocate partition space => exact hR.allocate partition space s
  | free id => exact hR.free id s

/-- A relation that is kept when a cache is opened, when a page is loaded and when an open cache
is changed in memory. -/
structure Parts (c : CacheId) (R : Session δ → Session δ → Prop) : Prop where
  refl : ∀ s, R s s
  trans : ∀ {s s' s''}, R s s' → R s' s'' → R s s''
  cacheFile : ∀ s, R s (cacheFile c s).2
  load : ∀ path i s, R s (load path i s).2
  modify : ∀ g : CacheFile → CacheFile, (∀ k, (g k).path = k.path) →
    ∀ s : Session δ, R s { s with store.caches := s.store.caches.modify c g }

section Parts

variable {c : CacheId} {R : Session δ → Session δ → Prop}

/-- Putting a page into memory is a change of the open cache. -/
lemma Parts.withFrame (h : Parts c R) {s s' : Session δ} (hs : R s s') (i : ℕ) (f : Frame) :
    R s (s'.withFrame c i f) := by
  refine h.trans hs (h.modify _ ?_ s')
  exact fun _ => rfl

/-- Loading a page is made of opening the cache, reading the file and changing the cache in
memory. -/
lemma Parts.frame_ends (h : Parts c R) (id : PageId) (s : Session δ) :
    Ends (frame c id) s (fun _ s' => R s s') (fun _ s' => R s s') := by
  have hopen : Ends (Session.cacheFile c) s (fun _ s' => R s s') (fun _ s' => R s s') :=
    Ends.of_result (P := fun _ s' => R s s') (h.cacheFile s)
  refine frame_ends_of_steps hopen (fun _ _ h _ => h) (fun _ _ _ h _ _ => h) (fun _ _ _ h _ _ _ => h) ?_
  intro k s₁ h₁ _ _
  have hload : Ends (Session.load k.path id.index) s₁ (fun _ s' => R s s') (fun _ s' => R s s') :=
    Ends.of_result (P := fun _ s' => R s s') (h.trans h₁ (h.load k.path id.index s₁))
  exact hload.mono_ok fun _ _ h₂ => h.withFrame h₂ _ _

/-- The calls for the pages of a cache are made of such parts. -/
theorem Parts.steps (h : Parts c R) : Steps c R where
  refl := h.refl
  trans := h.trans
  cacheFile := h.cacheFile
  frame id s := (h.frame_ends id s).result (P := fun _ s' => R s s')
  edit id m _ s := Ends.result (P := fun _ s' => R s s')
    (edit_ends_of_frame (h.frame_ends id s) fun _ _ _ h' => h.withFrame h' _ _)
  allocate partition space s := by
    have hopen : Ends (Session.cacheFile c) s (fun _ s' => R s s') (fun _ s' => R s s') :=
      Ends.of_result (P := fun _ s' => R s s') (h.cacheFile s)
    refine Ends.result (P := fun _ s' => R s s') (hopen.bind fun k s' h' => ?_)
    -- With all indexes given away nothing changes; otherwise the cache gets another next index.
    split
    · exact Ends.of_error rfl h'
    · refine Ends.of_ok rfl (h.trans h' (h.modify _ ?_ s'))
      exact fun _ => rfl
  free id s := Ends.result (P := fun _ s' => R s s')
    (free_ends_of_frame (h.refl s) (h.frame_ends id s) fun _ _ _ h' => h.withFrame h' _ _)

end Parts

/-- A computation on the pages of a cache changes the table of caches only there. -/
lemma Within.only {c : CacheId} {m : SessionM δ α} (hm : Within c m) (s : Session δ) :
    s.Only c (m s).2 := by
  refine hm.keeps (Parts.steps (R := fun s s' => s.Only c s') ⟨.refl, .trans, fun s => ?_,
    fun path i s => ?_, fun g _ s => only_modify g⟩) s
  · exact Ends.result (P := fun _ s' => s.Only c s')
      ((cacheFile_opens c s).mono_ok fun _ _ h => h.2)
  · exact Ends.result (P := fun _ s' => s.Only c s')
      ((load_ends path i s).mono (fun _ _ h => only_of_store h) fun _ _ h => only_of_store h.2)

/-- Two computations give the same from related sessions, and leave related sessions. -/
def Alike (R : Session δ → Session δ → Prop) (m : SessionM δ α) : Prop :=
  ∀ s t, R s t → (m s).1 = (m t).1 ∧ R (m s).2 (m t).2

/-- The calls for the pages of a cache give the same from sessions that are related. -/
structure Couples (c : CacheId) (R : Session δ → Session δ → Prop) : Prop where
  cacheFile : Alike R (cacheFile c)
  frame : ∀ id, Alike R (frame c id)
  edit : ∀ {α : Type} (id : PageId) {m : PageM α}, m.Steady → Alike R (edit c id m)
  allocate : ∀ partition space, Alike R (allocate c partition space)
  free : ∀ id, Alike R (free c id)

omit [Device δ] in
/-- What gives the same goes on the same. -/
lemma Alike.bind {R : Session δ → Session δ → Prop} {m : SessionM δ α} {f : α → SessionM δ β}
    (hm : Alike R m) (hf : ∀ a, Alike R (f a)) : Alike R (m >>= f) := by
  intro s t hst
  obtain ⟨heq, hst'⟩ := hm s t hst
  rcases hs : m s with ⟨r, s'⟩
  rcases ht : m t with ⟨r', t'⟩
  rw [hs, ht] at heq hst'
  -- The first results are the same, so either both go on or both are at their end.
  obtain rfl : r = r' := heq
  cases r with
  | error e =>
      rw [run_bind_error hs, run_bind_error ht]
      exact ⟨rfl, hst'⟩
  | ok a =>
      rw [run_bind_ok hs, run_bind_ok ht]
      exact hf a s' t' hst'

/-- Where the calls give the same, a computation that is built from them does. -/
theorem Within.couples {c : CacheId} {m : SessionM δ α} (hm : Within c m)
    {R : Session δ → Session δ → Prop} (hR : Couples c R) : Alike R m := by
  induction hm with
  | settle r =>
      intro s t hst
      cases r <;> exact ⟨rfl, hst⟩
  | bind _ _ ihm ihf => exact ihm.bind ihf
  | caught _ ih => exact fun s t hst => ⟨congrArg Except.ok (ih s t hst).1, (ih s t hst).2⟩
  | cacheFile => exact hR.cacheFile
  | frame id => exact hR.frame id
  | edit id hm => exact hR.edit id hm
  | allocate partition space => exact hR.allocate partition space
  | free id => exact hR.free id

/-! ### Other caches, and files -/

section Minds

variable {A : Device.Account δ} {c : CacheId} {s s' s'' : Session δ} {m : SessionM δ α}

/-- No other cache has changed, and no file. -/
structure Minds (A : Device.Account δ) (c : CacheId) (s s' : Session δ) : Prop where
  stays : A.Stays s.device s'.device
  folder : s'.store.folder = s.store.folder
  only : s.Only c s'

/-- Nothing has changed at all. -/
lemma Minds.refl (h : A.Honest s.device) : s.Minds A c s := ⟨.refl h, rfl, .refl s⟩

/-- What two calls leave alone, both of them together do. -/
lemma Minds.trans (h : s.Minds A c s') (h' : s'.Minds A c s'') : s.Minds A c s'' :=
  ⟨h.stays.trans h'.stays, h'.folder.trans h.folder, h.only.trans h'.only⟩

/-- Calls that only ask something of the device change no cache. -/
lemma Asks.minds (h : s.Asks A s') : s.Minds A c s' :=
  ⟨h.stays, by rw [h.store], only_of_store h.store⟩

/-- Every other cache is the same. -/
lemma Minds.same (h : s.Minds A c s') {c' : CacheId} (hc : c' ≠ c) : s.Same A c' s' where
  honest := h.stays.honest
  cache := h.only.others c' hc
  folder := h.folder
  options := h.only.options
  file := by rw [file, h.stays.bytes, PageStore.pathOf, h.folder]; rfl
  present := h.stays.present

/-- A change of the frames of a cache. -/
lemma Minds.modify (h : s.Minds A c s') (g : CacheFile → CacheFile) :
    s.Minds A c { s' with store.caches := s'.store.caches.modify c g } :=
  h.trans ⟨.refl h.stays.honest, rfl, only_modify g⟩

/-- A cache that is not open yet is only opened over a file that is cut into whole pages. -/
lemma cacheFile_whole (hs : A.Honest s.device) :
    Ends (cacheFile c) s
      (fun _ s' => s.Minds A c s' ∧
        (s.store.caches[c]? = none → s.size ∣ (s.file A c).length))
      (fun _ s' => s.Minds A c s') := by
  cases hk : s.store.caches[c]? with
  | some k => exact Ends.of_ok (cacheFile_open hk) ⟨.refl hs, fun h => by cases h⟩
  | none =>
      -- A file that is not there is made, so it is its length afterwards that counts.
      refine cacheFile_ends_of_steps (I := s.Asks A) (K := fun n s₂ => n = (s.file A c).length ∧ s.Asks A s₂) hk
        (fun _ => .refl hs) (fun _ => ?_) (fun s₁ h₁ => ?_) (fun _ _ h₂ _ => h₂.2.minds) ?_
      · refine (attempt_asks (A.length_calm _ _ hs)).mono_ok ?_
        rintro (e | n) s₁ ⟨h₁, -⟩
        · exact h₁.minds
        · exact h₁
      · refine ((perform_attach h₁.stays.honest).mono_error fun _ _ h => (h₁.trans h.2).minds).bind ?_
        rintro - s₂ ⟨hattached, hpresent⟩
        have h₂ := h₁.trans hattached
        refine (perform_asks (A.size_ends h₂.stays.honest hpresent)).mono ?_
          fun _ _ h => (h₂.trans h.2).minds
        rintro n s₃ ⟨h₃, hn⟩
        exact ⟨by rw [hn, h₂.stays.bytes, file], h₂.trans h₃⟩
      · rintro n s₂ k ⟨rfl, hasks⟩ hwhole -
        exact ⟨hasks.minds.trans ⟨.refl hasks.stays.honest, rfl, only_insert k⟩, fun _ => hwhole⟩

/-- Opening a cache changes no other one. -/
lemma cacheFile_minds (hs : A.Honest s.device) :
    Ends (cacheFile c) s (fun _ s' => s.Minds A c s') (fun _ s' => s.Minds A c s') :=
  (cacheFile_whole hs).mono_ok fun _ _ h => h.1

/-- Reading a page from a file changes no cache and no file. -/
lemma load_minds (hs : A.Honest s.device) (path : String) (i : ℕ) :
    Ends (load path i) s (fun _ s' => s.Minds A c s') (fun _ s' => s.Minds A c s') := by
  refine Ends.bind_ok (show pageSize s = (.ok s.size, s) from rfl) ?_
  refine ((perform_asks (A.size_calm _ _ hs)).mono (fun _ _ h => h.1)
    fun _ _ h => h.2.minds).bind fun n s₁ h₁ => ?_
  split
  · exact (perform_asks (A.readExact_calm _ _ _ _ h₁.stays.honest)).mono
      (fun _ _ h => h₁.minds.trans h.1.minds) fun _ _ h => h₁.minds.trans h.2.minds
  · exact Ends.of_ok rfl h₁.minds

/-- A call for the pages of a cache changes no other cache and no file. -/
lemma steps_minds (A : Device.Account δ) (c : CacheId) :
    Steps c fun s s' => A.Honest s.device → s.Minds A c s' :=
  Parts.steps
    { refl := fun _ hs => .refl hs
      trans := fun h h' hs => (h hs).trans (h' (h hs).stays.honest)
      cacheFile := fun s hs => (cacheFile_minds hs).result (P := fun _ s' => s.Minds A c s')
      load := fun path i s hs => (load_minds hs path i).result (P := fun _ s' => s.Minds A c s')
      modify := fun g _ _ hs => (Minds.refl hs).modify g }

/-- A computation on the pages of a cache changes no other cache and no file. -/
theorem Within.minds (hm : Within c m) (hs : A.Honest s.device) : s.Minds A c (m s).2 :=
  hm.keeps (steps_minds A c) s hs

/-! ### The cache itself -/

/-- A cache has become some array, in which freed pages are full of zeros if they were so
before. -/
def Runs (A : Device.Account δ) (c : CacheId) (s s' : Session δ) : Prop :=
  ∃ a, s.Turns A c a s' ∧ ∀ i, (s.array A c).Spent s.size i → a.Spent s.size i

/-- A call for the pages of a cache leaves it going with its file, and leaves freed pages full of
zeros. -/
lemma steps_runs (A : Device.Account δ) (c : CacheId) :
    Steps c fun s s' => s.Backed A c → s.Runs A c s' where
  refl _ hs := ⟨_, .refl hs, fun _ h => h⟩
  -- The array that the first call leaves is the one that the second call begins with.
  trans {s s' s''} h h' hs := by
    obtain ⟨a, h, hspent⟩ := h hs
    obtain ⟨a', h', hspent'⟩ := h' h.backed
    rw [h.array, h.size] at hspent'
    exact ⟨a', h.trans h', fun i hi => hspent' i (hspent i hi)⟩
  cacheFile s hs := Ends.result (P := fun _ s' => s.Runs A c s')
    ((cacheFile_turns hs).mono (fun _ _ h => ⟨_, h.2, fun _ h => h⟩) fun _ _ h => ⟨_, h.2, fun _ h => h⟩)
  frame id s hs := Ends.result (P := fun _ s' => s.Runs A c s')
    ((frame_turns hs id).mono (fun _ _ h => ⟨_, h.2.2.2.1, fun _ h => h⟩)
      fun _ _ h => ⟨_, h.2, fun _ h => h⟩)
  edit id m hm s hs := Ends.result (P := fun _ s' => s.Runs A c s')
    ((edit_turns hs id hm).mono
      (fun _ _ h => ⟨_, h.2.2, fun _ => PageArray.Spent.set_has h.1⟩)
      fun _ _ h => h.elim (fun h => ⟨_, h.2, fun _ h => h⟩) fun h => ⟨_, h.2.2, fun _ => PageArray.Spent.set_has h.1⟩)
  allocate partition space s hs := Ends.result (P := fun _ s' => s.Runs A c s')
    ((allocate_turns hs partition space).mono (fun _ _ h => ⟨_, h.2.2, fun _ h => h.push⟩)
      fun _ _ h => ⟨_, h.2, fun _ h => h⟩)
  free id s hs := Ends.result (P := fun _ s' => s.Runs A c s')
    ((free_turns hs id).mono (fun _ _ h => ⟨_, h.2.2, fun _ hi => hi.release h.2.1 h.1⟩)
      fun _ _ h => ⟨_, h.2, fun _ h => h⟩)

/-- A computation on the pages of a cache makes another array of it, leaves it going with its
file, and leaves freed pages full of zeros. -/
theorem Within.runs (hm : Within c m) (hs : s.Backed A c) : s.Runs A c (m s).2 :=
  hm.keeps (steps_runs A c) s hs

/-- The same for a computation whose end is known. -/
lemma Within.backed {r : Except Failure α} (hm : Within c m) (hs : s.Backed A c) (hrun : m s = (r, s')) :
    s'.Backed A c := by
  obtain ⟨_, hturns, -⟩ := hm.runs hs
  rw [hrun] at hturns
  exact hturns.backed

end Minds

/-! ### Frames -/

section Framed

variable {c : CacheId} {s s' : Session δ} {m : SessionM δ α}

/-- Every page in memory is a page of the cache. -/
def Framed (s : Session δ) (c : CacheId) : Prop :=
  ∀ k i f, s.store.caches[c]? = some k → k.frames[i]? = some f → i < k.next

omit [Device δ] in
/-- What is in memory is told by the table of caches alone. -/
lemma Framed.of_store (h : s.Framed c) (hstore : s'.store = s.store) : s'.Framed c := by
  intro k i f hk
  exact h k i f (hstore ▸ hk)

omit [Device δ] in
/-- A page of the cache is brought into memory. -/
lemma Framed.withFrame (h : s.Framed c) {k : CacheFile} (hk : s.store.caches[c]? = some k) {i : ℕ}
    (hi : i < k.next) (f : Frame) : (s.withFrame c i f).Framed c := by
  intro k' j g hk' hg
  rw [withFrame_open hk] at hk'
  obtain rfl := Option.some.inj hk'
  rw [getElem?_insert_frame] at hg
  split at hg
  · rename_i hij
    exact hij ▸ hi
  · exact h k j g hk hg

/-- A cache that is opened has nothing in memory. -/
lemma cacheFile_framed (hs : s.Framed c) :
    Ends (cacheFile c) s (fun k s' => s'.store.caches[c]? = some k ∧ s'.Framed c)
      (fun _ s' => s'.Framed c) := by
  refine (cacheFile_store c s).mono ?_ fun _ _ h => hs.of_store h
  rintro k s' (⟨hk, hstore⟩ | ⟨hframes, hstore⟩)
  · exact ⟨by rw [hstore, hk], hs.of_store hstore⟩
  · have hk : s'.store.caches[c]? = some k := by
      rw [hstore]
      exact Std.TreeMap.getElem?_insert_self
    refine ⟨hk, fun k' i f hk' hf => ?_⟩
    obtain rfl : k = k' := Option.some.inj (hk.symm.trans hk')
    rw [hframes, Std.TreeMap.getElem?_emptyc] at hf
    cases hf

/-- Only pages of the cache are loaded. -/
lemma frame_framed (hs : s.Framed c) (id : PageId) :
    Ends (frame c id) s
      (fun _ s' => s'.Framed c ∧ ∃ k, s'.store.caches[c]? = some k ∧ id.index < k.next)
      (fun _ s' => s'.Framed c) := by
  refine frame_ends_of_steps (cacheFile_framed hs) (fun _ _ h _ => h.2) (fun _ _ _ h _ _ => h.2)
    (fun k _ _ h hi _ _ => ⟨h.2, k, h.1, hi⟩) ?_
  -- The index was compared with the next one before the page is loaded.
  rintro k s₁ ⟨hk, h₁⟩ hi -
  refine (load_ends k.path id.index s₁).mono (fun bytes s₂ h₂ => ?_) fun _ _ h => h₁.of_store h.2
  have hk₂ : s₂.store.caches[c]? = some k := by rw [h₂, hk]
  exact ⟨(h₁.of_store h₂).withFrame hk₂ hi _, _, withFrame_open hk₂ _ _, hi⟩

/-- The calls bring no other page into memory, and allocating one makes it a page of the cache. -/
lemma steps_framed (c : CacheId) :
    Steps c fun s s' : Session δ => s.Framed c → s'.Framed c where
  refl _ h := h
  trans h h' hs := h' (h hs)
  cacheFile s hs := Ends.result (P := fun _ s' => Framed s' c)
    ((cacheFile_framed hs).mono_ok fun _ _ h => h.2)
  frame id s hs := Ends.result (P := fun _ s' => Framed s' c)
    ((frame_framed hs id).mono_ok fun _ _ h => h.1)
  edit id m _ s hs := Ends.result (P := fun _ s' => Framed s' c)
    (edit_ends_of_frame (frame_framed hs id) fun _ _ _ ⟨h, _, hk, hi⟩ => h.withFrame hk hi _)
  allocate partition space s hs := by
    refine Ends.result (P := fun _ s' => Framed s' c)
      ((cacheFile_framed hs).bind fun k s' ⟨hk, h⟩ => ?_)
    split
    · exact Ends.of_error rfl h
    · refine Ends.of_ok rfl fun k' i f hk' hf => ?_
      simp only [Std.TreeMap.getElem?_modify_self, hk, Option.map_some, Option.some.injEq] at hk'
      subst hk'
      rw [getElem?_insert_frame] at hf
      -- The page is the new one, which is below the index behind it, or one from before.
      split at hf
      · rename_i hik
        exact hik ▸ Nat.lt_succ_self _
      · exact Nat.lt_succ_of_lt (h k i f hk hf)
  free id s hs := Ends.result (P := fun _ s' => Framed s' c)
    (free_ends_of_frame hs (frame_framed hs id) fun _ _ _ ⟨h, _, hk, hi⟩ => h.withFrame hk hi _)

/-- A computation on the pages of a cache brings no other page into memory. -/
theorem Within.framed (hm : Within c m) (hs : s.Framed c) : (m s).2.Framed c :=
  hm.keeps (steps_framed c) s hs

end Framed

end Session

end PageCatalog
