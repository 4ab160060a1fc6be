import Mathlib.Tactic
import PageCatalog.Device.MemoryDisk
import PageCatalog.Proofs.Store.Access

/-!
Stores and caches that are opened, and caches that are left alone.

A store that was opened has no open cache. The first call on a cache opens its file. A call
that had a page has left the cache open and the page in memory. Whatever a call on one cache
does, the other caches stay as they are.

* `Session.store_of_start`, `Session.size_of_start`: a store that was opened.
* `Session.blank`: a small store, for tests.
* `Session.frame_opens`, `Session.view_opens`: a page after it was had.
* `Session.Only`: changes of one cache; `Session.edit_only`, `Session.free_only`,
  `Session.allocate_only`.
-/

namespace PageCatalog

/-! ### Opening a store -/

/-- Sizes that are not refused are in the range. -/
lemma Options.size_of_check {o : Options} (h : o.check = .ok ()) :
    512 ≤ o.pageSize ∧ o.pageSize ≤ 65536 := by
  rw [Options.check] at h
  split at h
  · rename_i hvalid
    rw [Options.validPageSize, decide_eq_true_eq] at hvalid
    exact hvalid.2
  · cases h

/-- A store that was opened has the settings that were asked for, and no open cache. -/
lemma Session.store_of_start {δ : Type} [Device δ] {folder : String} {options : Options} {d d' : δ}
    {store : PageStore} (h : Session.start folder options d = (.ok store, d')) :
    options.check = .ok () ∧ store = { folder, options } ∧
      (options.createIfMissing = true ∧ Device.makeDirs folder d = (.ok (), d') ∨ d' = d) := by
  rw [Session.start] at h
  split at h
  · cases h
  · rename_i hcheck
    split at h
    · rename_i hcreate
      split at h
      · cases h
      · rename_i hmade
        cases h
        exact ⟨hcheck, rfl, .inl ⟨hcreate, hmade⟩⟩
    · cases h
      exact ⟨hcheck, rfl, .inr rfl⟩

/-- No cache of a store is open at first. -/
lemma Session.closed_of_start {δ : Type} [Device δ] {folder : String} {options : Options} {d d' : δ}
    {store : PageStore} (h : Session.start folder options d = (.ok store, d')) (c : CacheId) :
    store.caches[c]? = none := by
  obtain ⟨-, rfl, -⟩ := store_of_start h
  exact Std.TreeMap.getElem?_emptyc

/-- A store is only opened with a page size that pages can have. -/
lemma Session.size_of_start {δ : Type} [Device δ] {folder : String} {options : Options} {d d' : δ}
    {store : PageStore} (h : Session.start folder options d = (.ok store, d')) :
    512 ≤ (⟨d', store⟩ : Session δ).size ∧ (⟨d', store⟩ : Session δ).size ≤ 65536 := by
  obtain ⟨hcheck, rfl, -⟩ := store_of_start h
  exact Options.size_of_check hcheck

/-- A store over a disk in memory is opened whenever its settings are not refused. -/
lemma Session.start_memoryDisk {folder : String} {options : Options} (h : options.check = .ok ())
    (disk : MemoryDisk) :
    Session.start folder options disk = (.ok { folder, options }, disk) := by
  rw [Session.start, h]
  simp only
  split <;> rfl

/-- A store with pages of the smallest size, over an empty disk. -/
def Session.blank : Session MemoryDisk :=
  ⟨⟨.empty⟩, { folder := "store", options := { pageSize := 512 } }⟩

/-- A store is opened over an empty disk. -/
lemma Session.blank_start :
    Session.start "store" { pageSize := 512 } (⟨.empty⟩ : MemoryDisk)
      = (.ok Session.blank.store, Session.blank.device) :=
  Session.start_memoryDisk (by decide) _

/-! ### Opening a cache -/

namespace Session

variable {δ α : Type} {c c' : CacheId} {s s' s'' : Session δ} {id : PageId} {k : CacheFile} {p : Page}

/-- At most one cache has changed. -/
structure Only (c : CacheId) (s s' : Session δ) : Prop where
  options : s'.store.options = s.store.options
  others : ∀ c' ≠ c, s'.store.caches[c']? = s.store.caches[c']?

lemma Only.refl (s : Session δ) : s.Only c s := ⟨rfl, fun _ _ => rfl⟩

lemma Only.trans (h : s.Only c s') (h' : s'.Only c s'') : s.Only c s'' :=
  ⟨h'.options.trans h.options, fun c' hc => (h'.others c' hc).trans (h.others c' hc)⟩

lemma only_of_store (h : s'.store = s.store) : s.Only c s' :=
  ⟨by rw [h], fun _ _ => by rw [h]⟩

/-- A changed entry of the table of caches. -/
lemma only_modify (f : CacheFile → CacheFile) :
    s.Only c { s with store.caches := s.store.caches.modify c f } := by
  refine ⟨rfl, fun c' hc => ?_⟩
  rw [Std.TreeMap.getElem?_modify, if_neg fun h => hc (Std.LawfulEqCmp.eq_of_compare h).symm]

lemma only_insert (k : CacheFile) :
    s.Only c { s with store.caches := s.store.caches.insert c k } := by
  refine ⟨rfl, fun c' hc => ?_⟩
  rw [Std.TreeMap.getElem?_insert, if_neg fun h => hc (Std.LawfulEqCmp.eq_of_compare h).symm]

lemma attempt_ends (call : DeviceM δ α) (s : Session δ) :
    Ends (attempt call) s (fun _ s' => s'.store = s.store) (fun _ _ => False) :=
  Ends.of_ok rfl rfl

variable [Device δ]

/-- A cache that is not open yet comes into the table with no page in memory, unless its file
cannot be had. -/
lemma cacheFile_store (c : CacheId) (s : Session δ) :
    Ends (cacheFile c) s
      (fun k s' => s.store.caches[c]? = some k ∧ s'.store = s.store ∨
        k.frames = ∅ ∧ s'.store = { s.store with caches := s.store.caches.insert c k })
      (fun _ s' => s'.store = s.store) := by
  cases hk : s.store.caches[c]? with
  | some k => exact Ends.of_ok (cacheFile_open hk) (.inl ⟨rfl, rfl⟩)
  | none =>
      refine cacheFile_ends_of_steps (I := fun s₁ => s₁.store = s.store) (K := fun _ s₂ => s₂.store = s.store) hk
        (fun _ => rfl) (fun _ => ?_) (fun s₁ h₁ => ?_) (fun _ _ h₂ _ => h₂) ?_
      · exact (attempt_ends _ s).mono_ok (by rintro (e | n) s₁ h₁ <;> exact h₁)
      · refine ((perform_ends _ s₁).mono_error fun _ _ h => h.2.trans h₁).bind fun _ s₂ h₂ => ?_
        have hstore : s₂.store = s.store := h₂.trans h₁
        exact (perform_ends _ s₂).mono (fun _ _ h => h.trans hstore) fun _ _ h => h.2.trans hstore
      · rintro n s₂ k hstore - rfl
        exact .inr ⟨rfl, by rw [← hstore]⟩

/-- A cache is open after its first use. -/
lemma cacheFile_opens (c : CacheId) (s : Session δ) :
    Ends (cacheFile c) s (fun k s' => s'.store.caches[c]? = some k ∧ s.Only c s')
      (fun _ s' => s.Only c s') := by
  refine (cacheFile_store c s).mono ?_ fun _ _ h => only_of_store h
  rintro k s' (⟨hk, hstore⟩ | ⟨-, hstore⟩)
  · exact ⟨by rw [hstore, hk], only_of_store hstore⟩
  · refine ⟨by rw [hstore]; exact Std.TreeMap.getElem?_insert_self, ?_⟩
    have honly := only_insert (s := s) (c := c) k
    exact ⟨by rw [hstore], fun c' hc => by rw [hstore]; exact honly.others c' hc⟩

omit [Device δ] in
lemma withFrame_only (c : CacheId) (i : ℕ) (f : Frame) (s : Session δ) :
    s.Only c (s.withFrame c i f) :=
  only_modify _

/-- A page that was had is in memory, in an open cache. -/
lemma frame_opens (c : CacheId) (id : PageId) (s : Session δ) :
    Ends (frame c id) s (fun f s' => s'.Holds c id.index f.bytes f ∧ s.Only c s')
      (fun _ s' => s.Only c s') := by
  refine frame_ends_of_steps (cacheFile_opens c s) (fun _ _ h _ => h.2) (fun _ _ _ h _ _ => h.2) ?_ ?_
  · rintro k s₁ f ⟨hk, honly⟩ hi hf hfreed
    exact ⟨⟨hfreed, rfl, k, hk, hi, hf⟩, honly⟩
  · rintro k s₁ ⟨hk, honly⟩ hi -
    refine (load_ends k.path id.index s₁).mono (fun bytes s₂ hs₂ => ?_)
      fun _ _ h => honly.trans (only_of_store h.2)
    have hk₂ : s₂.store.caches[c]? = some k := by rw [hs₂]; exact hk
    exact ⟨holds_withFrame hk₂ hi rfl,
      honly.trans ((only_of_store hs₂).trans (withFrame_only c _ _ s₂))⟩

/-- A page that answered is in memory. -/
lemma view_opens (c : CacheId) (id : PageId) (f : Page → Except Failure α) (s : Session δ) :
    Ends (view c id f) s (fun a s' => (∃ p, s'.InMemory c id.index p ∧ f p = .ok a) ∧ s.Only c s')
      (fun _ s' => s.Only c s') := by
  refine (frame_opens c id s).bind fun g s' ⟨hholds, honly⟩ => ?_
  cases hf : f g.bytes with
  | ok a => exact Ends.of_ok (settle_ok s') ⟨⟨g.bytes, hholds.memory, hf⟩, honly⟩
  | error e => exact Ends.of_error rfl honly

lemma edit_only (c : CacheId) (id : PageId) (m : PageM α) (s : Session δ) :
    Ends (edit c id m) s (fun _ s' => s.Only c s') (fun _ s' => s.Only c s') :=
  edit_ends_of_frame (frame_opens c id s) fun _ s' _ h => h.2.trans (withFrame_only c _ _ s')

lemma free_only (c : CacheId) (id : PageId) (s : Session δ) :
    Ends (free c id) s (fun _ s' => s.Only c s') (fun _ s' => s.Only c s') :=
  free_ends_of_frame (.refl s) (frame_opens c id s) fun _ s' _ h => h.2.trans (withFrame_only c _ _ s')

lemma allocate_only (c : CacheId) (partition : UInt16) (space : Space) (s : Session δ) :
    Ends (allocate c partition space) s (fun _ s' => s.Only c s') (fun _ s' => s.Only c s') := by
  refine ((cacheFile_opens c s).mono_ok fun _ _ h => h.2).bind fun k s' honly => ?_
  split
  · exact Ends.of_error rfl honly
  · exact Ends.of_ok rfl (honly.trans (only_modify _))

/-- Changes of another cache are not seen. -/
lemma Only.quiet (h : s.Only c' s') (hc : c ≠ c') : s.Quiet (.none δ) c s' :=
  quiet_none (h.others c hc) h.options

end Session

end PageCatalog
