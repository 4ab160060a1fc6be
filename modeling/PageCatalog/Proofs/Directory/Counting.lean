import Mathlib.Tactic
import PageCatalog.Proofs.Directory.Separate

/-!
The number of pages of a cache.

It is found once, when the file of the cache is opened, from the size that the device
reports, and held in 32 bits. Whatever the device reports then and does later: the number is
never lost again, new pages are counted from it, and the first page, if it is counted at all,
stays where it is.

* `SessionEvent`: what happens to a store while its device does what it likes.
* `Session.measured`, `Session.cacheFile_reports`: a cache that is opened.
* `CacheFile.Counts`, `Session.Counts`: a cache with a number of pages at least; each call keeps
  it (`Within.counts`, `On.counts`, `flushIn_counts`), and so does a history (`counts_after`).
* `Session.Counting`: what it means for the answers.
* `Session.counting_of_opened`: a file of any size, and every history after it was opened.
-/

namespace PageCatalog

/-- What happens to a store: something is done in a cache, changed pages are written in some
order, or something becomes of the device. -/
inductive SessionEvent (δ : Type) [Device δ] : Type 1 where
  | on (c : CacheId) {α : Type} (m : SessionM δ α) (h : Session.On c m)
  | flush (o : Schedule)
  | turn (f : δ → δ)

namespace SessionEvent

variable {δ : Type} [Device δ]

/-- An event: a call for the pages of a cache, a flush, or a turn of the device. -/
def step : SessionEvent δ → Session δ → Session δ
  | on _ m _, s => (m s).2
  | flush o, s => (Session.flushIn o s).2
  | turn f, s => { s with device := f s.device }

/-- The session after some events. -/
def after (events : List (SessionEvent δ)) (s : Session δ) : Session δ :=
  events.foldl (fun s event => event.step s) s

/-- What each event keeps, a history keeps. -/
lemma after_keeps {P : Session δ → Prop} (hstep : ∀ (event : SessionEvent δ) s, P s → P (event.step s))
    (events : List (SessionEvent δ)) {s : Session δ} (hs : P s) : P (after events s) := by
  induction events generalizing s with
  | nil => exact hs
  | cons event rest ih => exact ih (hstep event s hs)

end SessionEvent

/-- A cache with `n` pages at least, whose first page is not freed. -/
structure CacheFile.Counts (n : ℕ) (k : CacheFile) : Prop where
  le : n ≤ k.next
  limit : k.next ≤ CacheFile.indexLimit
  first : ∀ f, k.frames[0]? = some f → f.freed = false

namespace Session

variable {δ α : Type}

/-- An open cache with `n` pages at least, whose first page is not freed. -/
def Counts (c : CacheId) (n : ℕ) (s : Session δ) : Prop :=
  ∃ k, s.store.caches[c]? = some k ∧ k.Counts n

variable {c c' : CacheId} {n i : ℕ} {s s' : Session δ} {k : CacheFile} {f : Frame}

/-- The pages of a cache are counted by its entry in the table alone. -/
lemma Counts.of_cache (h : s.Counts c n) (hcache : s'.store.caches[c]? = s.store.caches[c]?) :
    s'.Counts c n := by
  obtain ⟨k, hk, hcounts⟩ := h
  exact ⟨k, hcache.trans hk, hcounts⟩

/-- Putting a page into memory does not change how many there are. -/
lemma Counts.withFrame (h : s.Counts c n) (hf : i = 0 → f.freed = false) :
    (s.withFrame c i f).Counts c n := by
  obtain ⟨k, hk, hcounts⟩ := h
  refine ⟨_, withFrame_open hk i f, hcounts.le, hcounts.limit, fun g hg => ?_⟩
  rw [getElem?_insert_frame] at hg
  split at hg
  · rename_i hi
    exact Option.some.inj hg ▸ hf hi
  · exact hcounts.first g hg

/-- A frame is put in the place of another one. -/
lemma Counts.replace (h : s.Counts c n) (hf : (s.store.caches[c']?).bind (·.frames[i]?) = some f)
    {g : Frame} (hfreed : g.freed = f.freed) : (s.withFrame c' i g).Counts c n := by
  by_cases hc : c' = c
  · subst hc
    refine h.withFrame fun hi => ?_
    obtain ⟨k, hk, hcounts⟩ := h
    rw [hk, Option.bind_some, hi] at hf
    exact hfreed.trans (hcounts.first f hf)
  · exact h.of_cache ((withFrame_only c' i g s).others c (Ne.symm hc))

variable [Device δ]

/-! ### A cache is opened -/

/-- The device when it is asked for the size of the file of a cache. -/
def measured (c : CacheId) (s : Session δ) : δ :=
  (Device.attach (s.store.pathOf c) (if s.store.options.createIfMissing then s.device
    else (Device.length (s.store.pathOf c) s.device).2)).2

omit [Device δ] in
/-- A call of the device that succeeds has given what the device says. -/
lemma perform_tells (call : DeviceM δ α) (s : Session δ) :
    Ends (perform call) s (fun a s' => s'.store = s.store ∧ call s.device = (.ok a, s'.device))
      (fun _ s' => s'.store = s.store) := by
  rw [Ends, perform_run]
  rcases hcall : call s.device with ⟨_ | a, d⟩
  · exact rfl
  · exact ⟨rfl, rfl⟩

/-- A closed cache is opened with the number of pages that the device reports, in 32 bits. -/
lemma cacheFile_reports (hclosed : s.store.caches[c]? = none) :
    Ends (cacheFile c) s
      (fun k s' => s'.store.caches[c]? = some k ∧ k.frames = ∅ ∧
        ∃ size, (Device.size (s.store.pathOf c) (s.measured c)).1 = .ok size ∧ s.size ∣ size ∧
          k.next = max (size / s.size) 1 % 0x100000000)
      (fun _ s' => s'.store = s.store) := by
  -- Which of the device's states the size is asked in depends on whether the file was looked for
  -- first.
  refine cacheFile_ends_of_steps (I := fun s₁ => s₁.store = s.store ∧
      (Device.attach (s.store.pathOf c) s₁.device).2 = s.measured c)
    (K := fun n s₂ => s₂.store = s.store ∧ (Device.size (s.store.pathOf c) (s.measured c)).1 = .ok n)
    hclosed (fun hcreate => ⟨rfl, by rw [measured, if_pos hcreate]⟩) (fun hcreate => ?_) ?_
    (fun _ _ h₂ _ => h₂.1) ?_
  · have hlooked : Ends (attempt (Device.length (s.store.pathOf c))) s
        (fun _ s₁ => s₁.store = s.store ∧ s₁.device = (Device.length (s.store.pathOf c) s.device).2)
        (fun _ _ => False) := Ends.of_ok rfl ⟨rfl, rfl⟩
    refine hlooked.mono_ok ?_
    rintro (e | a) s₁ ⟨h₁, hdevice⟩
    · exact h₁
    · exact ⟨h₁, by rw [measured, if_neg hcreate, hdevice]⟩
  · rintro s₁ ⟨h₁, hmeasured⟩
    refine ((perform_tells _ s₁).mono_error fun _ _ h => h.trans h₁).bind ?_
    rintro ⟨⟩ s₂ ⟨h₂, hdevice⟩
    rw [hdevice] at hmeasured
    refine (perform_tells _ s₂).mono ?_ fun _ _ h => h.trans (h₂.trans h₁)
    rintro n s₃ ⟨h₃, hsize⟩
    exact ⟨h₃.trans (h₂.trans h₁), by rw [← hmeasured, hsize]⟩
  · rintro n s₂ k ⟨-, hn⟩ hwhole rfl
    exact ⟨Std.TreeMap.getElem?_insert_self, rfl, n, hn, hwhole, rfl⟩

/-! ### The number is kept -/

/-- Whatever page is asked for, the first one is not to be had only where the device fails. -/
lemma frame_counts (h : s.Counts c n) (id : PageId) :
    Ends (frame c id) s (fun f s' => s'.Counts c n ∧ f.freed = false)
      (fun e s' => s'.Counts c n ∧ (0 < n → id.index = 0 → e.IsIo)) := by
  obtain ⟨k, hk, hcounts⟩ := h
  have hle := hcounts.le
  refine frame_ends_of_steps (P := fun k₁ s₁ => k₁ = k ∧ s₁ = s) (Ends.of_ok (cacheFile_open hk) ⟨rfl, rfl⟩)
    ?_ ?_ ?_ ?_
  · rintro _ _ ⟨rfl, rfl⟩ hi
    exact ⟨⟨_, hk, hcounts⟩, fun hn hid => by omega⟩
  · rintro _ _ f ⟨rfl, rfl⟩ hf hfreed
    refine ⟨⟨_, hk, hcounts⟩, fun _ hid => ?_⟩
    rw [hid] at hf
    rw [hcounts.first f hf] at hfreed
    cases hfreed
  · rintro _ _ f ⟨rfl, rfl⟩ - - hfreed
    exact ⟨⟨_, hk, hcounts⟩, hfreed⟩
  · rintro k₁ s₁ ⟨rfl, rfl⟩ - -
    refine (load_ends k₁.path id.index s₁).mono (fun bytes s₂ h₂ => ⟨?_, rfl⟩)
      fun _ s₂ h => ⟨⟨k₁, by rw [h.2]; exact hk, hcounts⟩, fun _ _ => h.1⟩
    exact Counts.withFrame ⟨k₁, by rw [h₂]; exact hk, hcounts⟩ fun _ => rfl

/-- A new page comes behind the others, as long as there are indexes. -/
lemma allocate_counts (h : s.Counts c n) (partition : UInt16) (space : Space) :
    Ends (allocate c partition space) s
      (fun id s' => s'.Counts c n ∧ n ≤ id.index ∧ s.next? c = some id.index ∧
        s'.next? c = some (id.index + 1))
      (fun e s' => e = .error (.outOfSpace c) ∧ s' = s ∧ s.next? c = some CacheFile.indexLimit) := by
  obtain ⟨k, hk, hcounts⟩ := h
  have hn : s.next? c = some k.next := by rw [next?, hk]; rfl
  refine Ends.bind_ok (cacheFile_open hk) ?_
  split
  · rename_i hfull
    rw [hn, Nat.le_antisymm hcounts.limit hfull]
    exact Ends.of_error rfl ⟨rfl, rfl, rfl⟩
  · rename_i hlimit
    have hindex : (PageId.make partition space k.next).index = k.next := by
      rw [PageId.index_make]
      exact Nat.mod_eq_of_lt ((Nat.not_le.mp hlimit).trans (by decide))
    refine Ends.of_ok rfl ?_
    set f : Frame :=
      { id := .make partition space k.next, bytes := Page.zeros s.size, dirty := true } with hf
    set s' : Session δ := { s with store.caches := s.store.caches.modify c fun k =>
      { k with next := k.next + 1, frames := k.frames.insert k.next f } } with hs'
    have hk' : s'.store.caches[c]?
        = some { k with next := k.next + 1, frames := k.frames.insert k.next f } := by simp [hs', hk]
    refine ⟨⟨_, hk', hcounts.le.trans (Nat.le_succ _), Nat.not_le.mp hlimit, fun g hg => ?_⟩,
      hindex.symm ▸ hcounts.le, hindex.symm ▸ hn, ?_⟩
    · rw [getElem?_insert_frame] at hg
      split at hg
      · exact Option.some.inj hg ▸ rfl
      · exact hcounts.first g hg
    · rw [hindex, next?, hk']
      rfl

/-- No call makes pages fewer or frees the first one. -/
lemma steps_counts (c : CacheId) (n : ℕ) :
    Steps c fun s s' : Session δ => s.Counts c n → s'.Counts c n where
  refl _ h := h
  trans h h' hs := h' (h hs)
  cacheFile s hs := by
    obtain ⟨k, hk, hcounts⟩ := hs
    rw [cacheFile_open hk]
    exact ⟨k, hk, hcounts⟩
  frame id s hs := Ends.result (P := fun _ s' => Counts c n s')
    ((frame_counts hs id).mono (fun _ _ h => h.1) fun _ _ h => h.1)
  edit id m _ s hs := Ends.result (P := fun _ s' => Counts c n s')
    (edit_ends_of_frame ((frame_counts hs id).mono_error fun _ _ h => h.1)
      fun _ _ _ ⟨h, hfreed⟩ => h.withFrame fun _ => hfreed)
  allocate partition space s hs := Ends.result (P := fun _ s' => Counts c n s')
    ((allocate_counts hs partition space).mono (fun _ _ h => h.1) fun _ _ h => h.2.1 ▸ hs)
  free id s hs := Ends.result (P := fun _ s' => Counts c n s')
    (free_ends_of_frame hs ((frame_counts hs id).mono_error fun _ _ h => h.1)
      fun _ _ hid ⟨h, _⟩ => h.withFrame fun hid' => absurd hid' hid)

/-- A call for the pages of any cache. -/
lemma Within.counts {m : SessionM δ α} (hm : Within c' m) (hs : s.Counts c n) :
    (m s).2.Counts c n := by
  by_cases hc : c' = c
  · subst hc
    exact hm.keeps (steps_counts c' n) s hs
  · exact hs.of_cache ((hm.only s).others c (Ne.symm hc))

lemma On.counts {m : SessionM δ α} (h : On c' m) (hs : s.Counts c n) : (m s).2.Counts c n := by
  refine h.rec_within (P := fun m => Counts c n (m s).2) (fun hm => hm.counts hs) fun i f _ => ?_
  rw [rewrite_run]
  split
  · rename_i g hg
    exact hs.replace hg rfl
  · exact hs

lemma writePage_counts (hs : s.Counts c n) (c' : CacheId) (path : String) (i : ℕ) :
    Ends (writePage c' path i) s (fun _ s' => s'.Counts c n) (fun _ s' => s'.Counts c n) := by
  refine Ends.bind_ok (run_get s) ?_
  cases hf : (s.store.caches[c']?).bind (·.frames[i]?) with
  | none => exact Ends.of_ok rfl hs
  | some f =>
      simp only
      split
      · refine Ends.bind_ok (show pageSize s = (.ok s.size, s) from rfl) ?_
        refine ((perform_ends _ s).mono_error fun _ _ h => hs.of_cache (by rw [h.2])).bind
          fun _ s₁ h₁ => ?_
        have hf₁ : (s₁.store.caches[c']?).bind (·.frames[i]?) = some f := by rw [h₁]; exact hf
        exact Ends.of_ok (putFrame_run c' i _ s₁) ((hs.of_cache (by rw [h₁])).replace hf₁ rfl)
      · exact Ends.of_ok rfl hs

/-- A flush leaves the number of pages, also where it is broken off. -/
lemma flushIn_counts (hs : s.Counts c n) (o : Schedule) : (flushIn o s).2.Counts c n := by
  refine Ends.result (P := fun _ s' => Counts c n s') (Ends.bind_ok (run_get s) ?_)
  refine Ends.bind (ends_forM (I := Counts c n) _ (fun e _ s₁ h₁ => writePage_counts h₁ _ _ _) hs) ?_
  refine fun _ s₁ h₁ => ends_forM (I := Counts c n) _ (fun path _ s₂ h₂ => ?_) h₁
  exact (perform_ends _ s₂).mono (fun _ _ h => h₂.of_cache (by rw [h])) fun _ _ h =>
    h₂.of_cache (by rw [h.2])

/-- Whatever happens, no page is lost count of. -/
lemma counts_after (hs : s.Counts c n) (events : List (SessionEvent δ)) :
    (SessionEvent.after events s).Counts c n := by
  refine SessionEvent.after_keeps (fun event s hs => ?_) events hs
  cases event with
  | on c' m h => exact h.counts hs
  | flush o => exact flushIn_counts hs o
  | turn f => exact hs.of_cache rfl

/-! ### The answers -/

/-- A cache answers as one that has `n` pages at least. The first page is refused only where the
device fails. A new page has the next index; when the indexes are used up, there is none, and
nothing has changed. -/
structure Counting (c : CacheId) (n : ℕ) (s : Session δ) : Prop where
  count : ∃ m, pageCount c s = (.ok m, s) ∧ n ≤ m
  first : 0 < n → ∀ id : PageId, id.index = 0 →
    Ends (frame c id) s (fun _ _ => True) (fun e _ => e.IsIo)
  new : ∀ partition space, Ends (allocate c partition space) s
    (fun id s' => n ≤ id.index ∧ pageCount c s = (.ok id.index, s) ∧
      pageCount c s' = (.ok (id.index + 1), s'))
    (fun e s' => e = .error (.outOfSpace c) ∧ s' = s ∧
      pageCount c s = (.ok CacheFile.indexLimit, s))

/-- What the invariant says of the calls that a caller can make. -/
lemma Counts.counting (h : s.Counts c n) : s.Counting c n where
  count := by
    obtain ⟨k, hk, hcounts⟩ := h
    exact ⟨k.next, pageCount_run (by rw [next?, hk]; rfl), hcounts.le⟩
  first hn id hid := (frame_counts h id).mono (fun _ _ _ => trivial) fun _ _ h => h.2 hn hid
  new partition space := (allocate_counts h partition space).mono
    (fun _ _ h => ⟨h.2.1, pageCount_run h.2.2.1, pageCount_run h.2.2.2⟩)
    fun _ _ h => ⟨h.1, h.2.1, pageCount_run h.2.2⟩

/-- A cache is opened over a file of any size that the device reports. This fails, or the cache
counts the whole pages of the file, and one at least, cut to 32 bits; nothing is cut exactly if
the file has less than 2 ^ 32 pages. Whatever happens then, and whatever the device does, the
cache goes on to count these pages: the first one is there if it was counted, new pages come
behind those that were counted, and when the indexes are used up, there is no new page and
nothing changes. -/
theorem counting_of_opened (hclosed : s.store.caches[c]? = none) (hsize : 0 < s.size) :
    Ends (cacheFile c) s
      (fun k s' => ∃ size, (Device.size (s.store.pathOf c) (s.measured c)).1 = .ok size ∧
        s.size ∣ size ∧ k.next = max (size / s.size) 1 % 0x100000000 ∧
        (k.next = max 1 (size / s.size) ↔ size < 0x100000000 * s.size) ∧
        pageCount c s' = (.ok k.next, s') ∧
        ∀ events, (SessionEvent.after events s').Counting c k.next)
      (fun _ s' => s'.store = s.store) := by
  refine (cacheFile_reports hclosed).mono_ok ?_
  rintro k s' ⟨hk, hframes, size, hreport, hwhole, hnext⟩
  have hcounts : s'.Counts c k.next := by
    refine ⟨k, hk, le_rfl, ?_, fun f hf => ?_⟩
    · rw [hnext, CacheFile.indexLimit]
      omega
    · rw [hframes, Std.TreeMap.getElem?_emptyc] at hf
      cases hf
  refine ⟨size, hreport, hwhole, hnext, ?_, pageCount_run (by rw [next?, hk]; rfl),
    fun events => (counts_after hcounts events).counting⟩
  rw [hnext, ← Nat.div_lt_iff_lt_mul hsize]
  omega

/-- A file of 2 ^ 32 pages, as a device reports it. -/
def overlong : Session (Faulty MemoryDisk) :=
  ⟨guarded.device.setFaults { size := some 0x20000000000 }, guarded.store⟩

/-- Its pages are lost count of. -/
theorem counting_of_overlong : ∃ s', pageCount 1 overlong = (.ok 0, s') ∧
    ∃ id s'', allocate 1 0 .index s' = (.ok id, s'') ∧ id.index = 0 := by
  have hopened := counting_of_opened (s := overlong) (c := 1) (by decide) (by decide)
  obtain ⟨k, hrun⟩ := run_of_isOk (m := cacheFile 1) (s := overlong) (by decide +kernel)
  obtain ⟨size, hreport, -, hnext, -, hcount, hafter⟩ := hopened.ok hrun
  obtain rfl : 0x20000000000 = size := Except.ok.inj hreport
  have hzero : k.next = 0 := hnext
  rw [hzero] at hcount hafter
  refine ⟨_, (run_bind_ok hrun _).trans (by rw [hzero]; rfl), ?_⟩
  have hnew := (hafter []).new 0 .index
  rcases hallocate : allocate 1 0 .index (cacheFile 1 overlong).2 with ⟨e | id, s''⟩
  · obtain ⟨-, -, hfull⟩ := hnew.error hallocate
    cases hfull.symm.trans hcount
  · obtain ⟨-, hcounted, -⟩ := hnew.ok hallocate
    exact ⟨id, s'', rfl, Except.ok.inj (Prod.mk.inj (hcounted.symm.trans hcount)).1⟩

end Session

end PageCatalog
