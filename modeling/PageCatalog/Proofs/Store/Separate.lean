import Mathlib.Tactic
import PageCatalog.Proofs.Device.Disks
import PageCatalog.Proofs.Device.Path
import PageCatalog.Proofs.Store.Flushing
import PageCatalog.Proofs.Store.Within

/-!
What a cache has to do with the others of its store.

Over a disk in memory a cache is what its entry in the table of caches and its own file say.
Two sessions that agree on these answer alike in the cache, whatever is in the other caches
and files. Calls for other caches, a flush and a new opening of the store keep it so.

* `MemoryDisk.readExact_alike`: one file of a disk.
* `Session.Placed`: every open cache has the path of its own.
* `Session.Beside`: other files are left alone; `Within.beside`.
* `Session.Paired`: two sessions that agree on a cache.
* `couples_paired`, `Within.paired`: calls in the cache, and in another one.
* `flush_paired`, `reopen_paired`: what becomes of the whole store.
-/

namespace PageCatalog

/-! ### One file of a disk -/

namespace MemoryDisk

variable {disk disk' : MemoryDisk} {path : String}

/-- The rounds of a read leave the disk as it is, and see one file of it. -/
lemma readRounds_alike (h : disk.content? path = disk'.content? path) (rounds pos left : ℕ)
    (got : ByteArray) :
    (Transfer.readRounds (Device.readAt path) Device.stalls rounds pos left got disk).1
        = (Transfer.readRounds (Device.readAt path) Device.stalls rounds pos left got disk').1 ∧
      (Transfer.readRounds (Device.readAt path) Device.stalls rounds pos left got disk).2 = disk := by
  -- By induction on the rounds; each of them reads from a disk that is still the one it was.
  induction rounds generalizing pos left got with
  | zero => cases left <;> exact ⟨rfl, rfl⟩
  | succ rounds ih =>
      cases left with
      | zero => exact ⟨rfl, rfl⟩
      | succ left =>
          have hread : ∀ d : MemoryDisk,
              Device.persist (Device.readAt path pos (left + 1)) (Device.stalls d) d
                = (.ok (excerpt ((d.content? path).getD .empty) pos (left + 1)), d) := fun _ => rfl
          simp only [Transfer.readRounds, hread, ← h]
          split
          · exact ⟨rfl, rfl⟩
          · exact ih _ _ _

/-- A read leaves the disk as it is, and sees one file of it. -/
lemma readExact_alike (h : disk.content? path = disk'.content? path) (pos len : ℕ) :
    (Device.readExact path pos len disk).1 = (Device.readExact path pos len disk').1 ∧
      (Device.readExact path pos len disk).2 = disk := by
  obtain ⟨hresult, hdisk⟩ := readRounds_alike h len pos len .empty
  rw [Device.readExact, Device.readExact]
  rcases hd : Transfer.readRounds (Device.readAt path) Device.stalls len pos len .empty disk
    with ⟨⟨r, got⟩, d⟩
  rcases hd' : Transfer.readRounds (Device.readAt path) Device.stalls len pos len .empty disk'
    with ⟨⟨r', got'⟩, d'⟩
  rw [hd, hd'] at hresult
  rw [hd] at hdisk
  cases hresult
  cases r <;> exact ⟨rfl, hdisk⟩

end MemoryDisk

namespace Session

variable {c c' : CacheId} {s s' s'' t : Session MemoryDisk} {α : Type} {m : SessionM MemoryDisk α}

/-! ### Calls over a disk in memory -/

/-- A call of the device, and what is made of its answer. -/
lemma perform_run {δ : Type} (call : DeviceM δ α) (s : Session δ) :
    perform call s = ((call s.device).1.mapError fun e => .error (.io e),
      ⟨(call s.device).2, s.store⟩) := by
  rcases hrun : call s.device with ⟨e | a, d⟩
  · exact run_bind_ok (show attempt call s = (.ok (.error e), ⟨d, s.store⟩) by rw [attempt, hrun]) _
  · exact run_bind_ok (show attempt call s = (.ok (.ok a), ⟨d, s.store⟩) by rw [attempt, hrun]) _

/-- A page is loaded from the disk, which stays as it is. -/
lemma load_alike {path : String} (hsize : t.size = s.size)
    (h : t.device.content? path = s.device.content? path) (i : ℕ) :
    (load path i t).1 = (load path i s).1 ∧ (load path i s).2 = s := by
  -- Over a disk in memory the size of a file is always told.
  have hrun : ∀ s : Session MemoryDisk, load path i s =
      if i * s.size + s.size ≤ ((s.device.content? path).getD .empty).size then
        perform (Device.readExact path (i * s.size) s.size) s
      else (.ok (Page.zeros s.size), s) := by
    intro s
    rw [load, run_bind_ok (show pageSize s = (.ok s.size, s) from rfl),
      run_bind_ok (show perform (Device.size path) s = (.ok _, s) from rfl)]
    split <;> rfl
  obtain ⟨hread, hdisk⟩ := MemoryDisk.readExact_alike h.symm (i * s.size) s.size
  rw [hrun, hrun, hsize, h]
  split
  · rw [perform_run, perform_run, hread, hdisk]
    exact ⟨rfl, rfl⟩
  · exact ⟨rfl, rfl⟩

/-- The cache that a file of some size is opened as, or the refusal. -/
def sized (options : Options) (path : String) (size : ℕ) : Except Failure CacheFile :=
  if size % options.pageSize ≠ 0 then
    .error (.error (.corrupted (.fileSize path size options.pageSize)))
  else .ok { path, next := max (size / options.pageSize) 1 % 0x100000000 }

/-- An open cache has the path that it was opened at. -/
lemma path_of_sized {options : Options} {path : String} {size : ℕ} {k : CacheFile}
    (h : sized options path size = .ok k) : k.path = path := by
  rw [sized] at h
  split at h
  · cases h
  · cases h
    rfl

/-- What becomes of a session that opens a cache over a file that is there, or is made. -/
def openFile (c : CacheId) (file : ByteArray) (s : Session MemoryDisk) :
    Except Failure CacheFile × Session MemoryDisk :=
  match sized s.store.options (s.store.pathOf c) file.size with
  | .ok k => (.ok k, ⟨s.device.attached (s.store.pathOf c),
      { s.store with caches := s.store.caches.insert c k }⟩)
  | .error e => (.error e, ⟨s.device.attached (s.store.pathOf c), s.store⟩)

/-- What becomes of a session that opens a cache over a file that may be missing. -/
def openOver (c : CacheId) (file : Option ByteArray) (s : Session MemoryDisk) :
    Except Failure CacheFile × Session MemoryDisk :=
  if s.store.options.createIfMissing = false ∧ file = none then
    (.error (.error (missingFile (s.store.pathOf c))), s)
  else openFile c (file.getD .empty) s

/-- A cache that is not open yet is opened over its file. -/
lemma cacheFile_run (hk : s.store.caches[c]? = none) :
    cacheFile c s = openOver c (s.device.content? (s.store.pathOf c)) s := by
  set path := s.store.pathOf c with hpath
  -- the file is attached and measured, and the cache comes into the table
  have hattach : (do
      perform (Device.attach path)
      let size ← perform (Device.size path)
      if size % s.store.options.pageSize ≠ 0 then
        refuse (.corrupted (.fileSize path size s.store.options.pageSize))
      let k : CacheFile := { path, next := max (size / s.store.options.pageSize) 1 % 0x100000000 }
      modify fun s => { s with store.caches := s.store.caches.insert c k }
      return k : SessionM MemoryDisk CacheFile) s
      = openFile c ((s.device.content? path).getD .empty) s := by
    rw [run_bind_ok (show perform (Device.attach path) s = (.ok (), ⟨s.device.attached path, s.store⟩)
      from perform_run _ _)]
    have hmeasure : perform (Device.size path) ⟨s.device.attached path, s.store⟩
        = (.ok ((s.device.content? path).getD .empty).size, ⟨s.device.attached path, s.store⟩) := by
      refine (perform_run _ _).trans ?_
      change (Except.ok (((s.device.attached path).content? path).getD .empty).size, _) = _
      rw [MemoryDisk.content?_attached, if_pos rfl]
      rfl
    rw [run_bind_ok hmeasure, openFile, ← hpath, sized]
    split <;> rfl
  rw [cacheFile, run_bind_ok (run_get s)]
  simp only [hk, ← hpath]
  rw [openOver]
  cases hcreate : s.store.options.createIfMissing with
  | true => exact hattach
  | false =>
      cases hfile : s.device.content? path with
      | none =>
          have hlength : attempt (Device.length path) s = (.ok (.error MemoryDisk.missing), s) := by
            simp only [attempt, Device.length, hfile]
          rw [if_neg Bool.false_ne_true, run_bind_ok hlength, if_pos ⟨rfl, rfl⟩]
          rfl
      | some file =>
          have hlength : attempt (Device.length path) s = (.ok (.ok file.size), s) := by
            simp only [attempt, Device.length, hfile]
          rw [if_neg Bool.false_ne_true, run_bind_ok hlength, if_neg fun h => Option.some_ne_none _ h.2]
          rw [hfile] at hattach
          exact hattach

/-! ### Other files -/

/-- Every open cache has the path of its own. -/
def Placed {δ : Type} (s : Session δ) : Prop :=
  ∀ c k, s.store.caches[c]? = some k → k.path = s.store.pathOf c

/-- The table of caches has changed for a cache at most, the caches have their paths, and no
file but that of the cache has changed on the disk. -/
structure Beside (c : CacheId) (s s' : Session MemoryDisk) : Prop where
  only : s.Only c s'
  folder : s'.store.folder = s.store.folder
  placed : s.Placed → s'.Placed
  others : ∀ path, Path.canonical (s.store.pathOf c) ≠ Path.canonical path →
    s'.device.content? path = s.device.content? path

/-- Nothing has changed. -/
lemma Beside.refl (s : Session MemoryDisk) : s.Beside c s := ⟨.refl s, rfl, fun h => h, fun _ _ => rfl⟩

/-- The paths are those of the folder, which stays. -/
lemma Beside.pathOf (h : s.Beside c s') (c' : CacheId) : s'.store.pathOf c' = s.store.pathOf c' := by
  rw [PageStore.pathOf, h.folder, PageStore.pathOf]

/-- Two calls of the same cache. -/
lemma Beside.trans (h : s.Beside c s') (h' : s'.Beside c s'') : s.Beside c s'' where
  only := h.only.trans h'.only
  folder := h'.folder.trans h.folder
  placed hs := h'.placed (h.placed hs)
  others path hpath := (h'.others path (h.pathOf c ▸ hpath)).trans (h.others path hpath)

/-- A change of an open cache in memory. -/
lemma Beside.modify (h : s.Beside c s') {g : CacheFile → CacheFile} (hg : ∀ k, (g k).path = k.path) :
    s.Beside c { s' with store.caches := s'.store.caches.modify c g } := by
  refine h.trans ⟨only_modify g, rfl, fun hs c' k hk => ?_, fun _ _ => rfl⟩
  simp only [Std.TreeMap.getElem?_modify] at hk
  split at hk
  · rename_i hc
    obtain rfl := Std.LawfulEqCmp.eq_of_compare hc
    obtain ⟨k', hk', rfl⟩ := Option.map_eq_some_iff.mp hk
    exact (hg k').trans (hs c k' hk')
  · exact hs c' k hk

/-- Opening a cache makes its own file, if it makes one. -/
lemma cacheFile_beside (c : CacheId) (s : Session MemoryDisk) : s.Beside c (cacheFile c s).2 := by
  have honly := (Within.cacheFile : Within c (cacheFile c : SessionM MemoryDisk CacheFile)).only s
  cases hk : s.store.caches[c]? with
  | some k =>
      rw [cacheFile_open hk]
      exact .refl s
  | none =>
      -- A file that is attached is made if it was missing, and no other one is.
      rw [cacheFile_run hk, openOver] at honly ⊢
      have hothers : ∀ path, Path.canonical (s.store.pathOf c) ≠ Path.canonical path →
          (s.device.attached (s.store.pathOf c)).content? path = s.device.content? path :=
        fun path hpath => by rw [MemoryDisk.content?_attached, if_neg hpath]
      by_cases hmissing : s.store.options.createIfMissing = false ∧
          s.device.content? (s.store.pathOf c) = none
      · rw [if_pos hmissing]
        exact .refl s
      · rw [if_neg hmissing, openFile] at honly ⊢
        cases hsized : sized s.store.options (s.store.pathOf c)
            ((s.device.content? (s.store.pathOf c)).getD .empty).size with
        | error e =>
            rw [hsized] at honly
            exact ⟨honly, rfl, fun hs => hs, hothers⟩
        | ok k =>
            rw [hsized] at honly
            refine ⟨honly, rfl, fun hs c' k' hk' => ?_, hothers⟩
            change (s.store.caches.insert c k)[c']? = some k' at hk'
            rw [Std.TreeMap.getElem?_insert] at hk'
            split at hk'
            · rename_i hc
              obtain rfl := Std.LawfulEqCmp.eq_of_compare hc
              obtain rfl := Option.some.inj hk'
              exact path_of_sized hsized
            · exact hs c' k' hk'

/-- Loading a page changes nothing. -/
lemma load_beside (c : CacheId) (path : String) (i : ℕ) (s : Session MemoryDisk) :
    s.Beside c (load path i s).2 := by
  rw [(load_alike rfl rfl i).2]
  exact .refl s

/-- A computation on the pages of a cache leaves the files of other caches alone. -/
theorem Within.beside (hm : Within c m) (s : Session MemoryDisk) : s.Beside c (m s).2 :=
  hm.keeps (Parts.steps ⟨.refl, .trans, cacheFile_beside c, load_beside c,
    fun _ hg s => (Beside.refl s).modify hg⟩) s

/-! ### Two sessions -/

/-- Two sessions agree on a cache: on the settings, on its entry in the table of caches and on
its file. All open caches have their paths. -/
structure Paired (c : CacheId) (s t : Session MemoryDisk) : Prop where
  left : s.Placed
  right : t.Placed
  folder : t.store.folder = s.store.folder
  options : t.store.options = s.store.options
  cache : t.store.caches[c]? = s.store.caches[c]?
  content : t.device.content? (s.store.pathOf c) = s.device.content? (s.store.pathOf c)

namespace Paired

/-- A session agrees with itself. -/
lemma refl (hs : s.Placed) : Paired c s s := ⟨hs, hs, rfl, rfl, rfl, rfl⟩

/-- Sessions that agree on a cache have the same folder. -/
lemma pathOf (h : Paired c s t) (c' : CacheId) : t.store.pathOf c' = s.store.pathOf c' := by
  rw [PageStore.pathOf, h.folder, PageStore.pathOf]

/-- Agreeing has no direction. -/
lemma symm (h : Paired c s t) : Paired c t s :=
  ⟨h.right, h.left, h.folder.symm, h.options.symm, h.cache.symm, by rw [h.pathOf, h.content]⟩

/-- Agreeing goes from one session to the next. -/
lemma trans (h : Paired c s t) {u : Session MemoryDisk} (h' : Paired c t u) : Paired c s u :=
  ⟨h.left, h'.right, h'.folder.trans h.folder, h'.options.trans h.options, h'.cache.trans h.cache,
    (h.pathOf c ▸ h'.content).trans h.content⟩

/-- Sessions that agree on a cache have pages of the same size. -/
lemma size (h : Paired c s t) : t.size = s.size := congrArg Options.pageSize h.options

/-- The cache is changed in memory in both sessions. -/
lemma modify (h : Paired c s t) {g : CacheFile → CacheFile} (hg : ∀ k, (g k).path = k.path) :
    Paired c { s with store.caches := s.store.caches.modify c g }
      { t with store.caches := t.store.caches.modify c g } where
  left := ((Beside.refl s).modify hg).placed h.left
  right := ((Beside.refl t).modify hg).placed h.right
  folder := h.folder
  options := h.options
  cache := by rw [Std.TreeMap.getElem?_modify_self, Std.TreeMap.getElem?_modify_self, h.cache]
  content := h.content

/-- The same page is put into memory in both sessions. -/
lemma withFrame (h : Paired c s t) (i : ℕ) (f : Frame) :
    Paired c (s.withFrame c i f) (t.withFrame c i f) := by
  refine h.modify ?_
  exact fun _ => rfl

end Paired

/-- What is done in another cache is not seen. -/
lemma Beside.paired (h : s.Beside c' s') (hs : s.Placed) (hc : c ≠ c') : Paired c s s' where
  left := hs
  right := h.placed hs
  folder := h.folder
  options := h.only.options
  cache := h.only.others c hc
  content := h.others _ fun heq => hc (PageStore.canonical_pathOf_injective s.store heq).symm

/-- A cache is opened alike over files of the same content. -/
lemma cacheFile_paired : Alike (Paired c) (cacheFile c) := by
  intro s t h
  have hplaced := (cacheFile_beside c s).placed h.left
  have hplaced' := (cacheFile_beside c t).placed h.right
  cases hk : s.store.caches[c]? with
  | some k =>
      rw [cacheFile_open hk, cacheFile_open (h.cache.trans hk)]
      exact ⟨rfl, h⟩
  | none =>
      rw [cacheFile_run hk] at hplaced ⊢
      rw [cacheFile_run (h.cache.trans hk)] at hplaced' ⊢
      simp only [openOver, openFile, h.pathOf, h.content, h.options] at hplaced hplaced' ⊢
      have hattached : (t.device.attached (s.store.pathOf c)).content? (s.store.pathOf c)
          = (s.device.attached (s.store.pathOf c)).content? (s.store.pathOf c) := by
        rw [MemoryDisk.content?_attached, MemoryDisk.content?_attached, if_pos rfl, if_pos rfl, h.content]
      by_cases hmissing : s.store.options.createIfMissing = false ∧
          s.device.content? (s.store.pathOf c) = none
      · rw [if_pos hmissing, if_pos hmissing]
        exact ⟨rfl, h⟩
      · rw [if_neg hmissing] at hplaced hplaced' ⊢
        rw [if_neg hmissing]
        cases hsized : sized s.store.options (s.store.pathOf c)
            ((s.device.content? (s.store.pathOf c)).getD .empty).size with
        | error e =>
            rw [hsized] at hplaced hplaced'
            exact ⟨rfl, hplaced, hplaced', h.folder, h.options, h.cache, hattached⟩
        | ok k =>
            rw [hsized] at hplaced hplaced'
            refine ⟨rfl, hplaced, hplaced', h.folder, rfl, ?_, hattached⟩
            exact Std.TreeMap.getElem?_insert_self.trans Std.TreeMap.getElem?_insert_self.symm

/-- A page is loaded from the file of the cache. -/
lemma load_paired (h : Paired c s t) (i : ℕ) :
    (load (s.store.pathOf c) i s).1 = (load (s.store.pathOf c) i t).1 ∧
      Paired c (load (s.store.pathOf c) i s).2 (load (s.store.pathOf c) i t).2 := by
  obtain ⟨hresult, hs⟩ := load_alike h.size h.content i
  obtain ⟨-, ht⟩ := load_alike h.size.symm h.content.symm i
  rw [hs, ht]
  exact ⟨hresult.symm, h⟩

/-- A page is asked for alike: it is in memory in both sessions, or loaded in both. -/
lemma frame_paired (id : PageId) : Alike (Paired c) (frame c id) := by
  intro s t h
  obtain ⟨hopen, h₁⟩ := cacheFile_paired s t h
  have hk := cacheFile_opens c s
  -- Both calls open the cache alike, so two of the four cases contradict each other.
  rcases hs : cacheFile c s with ⟨e | k, s₁⟩ <;> rcases ht : cacheFile c t with ⟨e' | k', t₁⟩ <;>
    rw [hs, ht] at hopen h₁ <;> cases hopen
  · rw [frame, run_bind_error hs, run_bind_error ht]
    exact ⟨rfl, h₁⟩
  · rw [frame, run_bind_ok hs, run_bind_ok ht]
    have hpath := h₁.left c k (hk.ok hs).1
    by_cases hi : k.next ≤ id.index
    · simp only [if_pos hi]
      exact ⟨rfl, h₁⟩
    · simp only [if_neg hi, hpath]
      cases hf : k.frames[id.index]? with
      | some f =>
          by_cases hfreed : f.freed = true
          · simp only [if_pos hfreed]
            exact ⟨rfl, h₁⟩
          · simp only [if_neg hfreed]
            exact ⟨rfl, h₁⟩
      | none =>
        dsimp only
        obtain ⟨hload, h₂⟩ := load_paired h₁ id.index
        rcases hls : load (s₁.store.pathOf c) id.index s₁ with ⟨e | bytes, s₂⟩ <;>
          rcases hlt : load (s₁.store.pathOf c) id.index t₁ with ⟨e' | bytes', t₂⟩ <;>
          rw [hls, hlt] at hload h₂ <;> cases hload
        · rw [run_bind_error hls, run_bind_error hlt]
          exact ⟨rfl, h₂⟩
        · rw [run_bind_ok hls, run_bind_ok hlt]
          exact ⟨rfl, h₂.withFrame _ _⟩

/-- Calls for the pages of a cache answer alike where sessions agree on the cache. -/
lemma couples_paired (c : CacheId) : Couples c (Paired c) where
  cacheFile := cacheFile_paired
  frame := frame_paired
  edit id m _ := by
    refine (frame_paired id).bind fun f s t h => ?_
    rcases m.runOn f.bytes with ⟨r, bytes⟩
    have h' := h.withFrame id.index { f with bytes, dirty := true }
    cases r <;> exact ⟨rfl, h'⟩
  allocate partition space := by
    refine cacheFile_paired.bind fun k s t h => ?_
    by_cases hlimit : CacheFile.indexLimit ≤ k.next
    · simp only [if_pos hlimit]
      exact ⟨rfl, h⟩
    · simp only [if_neg hlimit]
      refine ⟨rfl, ?_⟩
      -- both sessions have pages of the same size
      change Paired c _ { t with store.caches := t.store.caches.modify c fun k' =>
        { k' with
          next := k'.next + 1
          frames := k'.frames.insert k'.next ⟨.make partition space k.next, .zeros t.size, true, false⟩ } }
      rw [h.size]
      refine h.modify ?_
      exact fun _ => rfl
  free id := by
    rw [free]
    split
    · exact fun s t h => ⟨rfl, h⟩
    · exact (frame_paired id).bind fun f s t h => ⟨rfl, h.withFrame _ _⟩

/-- A computation on the pages of a cache answers alike where sessions agree on the cache. -/
theorem Within.paired (hm : Within c m) : Alike (Paired c) m := hm.couples (couples_paired c)

/-! ### A flush -/

/-- The session after a page of a cache was written, if it had to be. -/
def saved (c : CacheId) (i : ℕ) (s : Session MemoryDisk) : Session MemoryDisk :=
  match s.store.caches[c]?.bind (·.frames[i]?) with
  | some f =>
    if f.dirty then
      withFrame ⟨s.device.written (s.store.pathOf c) (i * s.size) f.bytes, s.store⟩ c i { f with dirty := false }
    else s
  | none => s

/-- Over a disk in memory a page is written without fail. -/
lemma writePage_run (c : CacheId) (i : ℕ) (s : Session MemoryDisk) :
    writePage c (s.store.pathOf c) i s = (.ok (), s.saved c i) := by
  rw [writePage, run_bind_ok (run_get s), saved]
  cases s.store.caches[c]?.bind (·.frames[i]?) with
  | none => rfl
  | some f =>
      by_cases hdirty : f.dirty = true
      · have hwrite : perform (Device.writeExact (s.store.pathOf c) (i * s.size) f.bytes) s
            = (.ok (), ⟨s.device.written (s.store.pathOf c) (i * s.size) f.bytes, s.store⟩) := by
          rw [perform_run, MemoryDisk.writeExact_run]
          rfl
        simp only [if_pos hdirty]
        rw [run_bind_ok (show pageSize s = (.ok s.size, s) from rfl), run_bind_ok hwrite]
        rfl
      · simp only [if_neg hdirty]
        rfl

/-- Writing a page changes no file but that of its cache. -/
lemma saved_beside (c : CacheId) (i : ℕ) (s : Session MemoryDisk) : s.Beside c (s.saved c i) := by
  rw [saved]
  split
  · split
    · rename_i f _ _
      have hwritten : s.Beside c ⟨s.device.written (s.store.pathOf c) (i * s.size) f.bytes, s.store⟩ :=
        ⟨only_of_store rfl, rfl, fun h => h, fun _ hpath => MemoryDisk.content?_written_other hpath _ _⟩
      refine hwritten.modify ?_
      exact fun _ => rfl
    · exact .refl s
  · exact .refl s

/-- The same page is written to the same file in both sessions. -/
lemma saved_paired (h : Paired c s t) (i : ℕ) : Paired c (s.saved c i) (t.saved c i) := by
  rw [saved, saved, h.cache, h.pathOf, h.size]
  split
  · split
    · rename_i f _ _
      have hwritten : Paired c ⟨s.device.written (s.store.pathOf c) (i * s.size) f.bytes, s.store⟩
          ⟨t.device.written (s.store.pathOf c) (i * s.size) f.bytes, t.store⟩ :=
        ⟨h.left, h.right, h.folder, h.options, h.cache, MemoryDisk.content?_written h.content _ _⟩
      exact hwritten.withFrame _ _
    · exact h
  · exact h

/-- Of pages that are written one after the other, a cache sees its own. -/
lemma forM_writePage_paired (pages : List (CacheId × String × ℕ)) (h : Paired c s t)
    (hpages : ∀ e ∈ pages, e.2.1 = s.store.pathOf e.1) :
    ∃ s' t', (pages.forM fun e => writePage e.1 e.2.1 e.2.2) s = (.ok (), s') ∧
      ((pages.filter fun e => e.1 = c).forM fun e => writePage e.1 e.2.1 e.2.2) t = (.ok (), t') ∧
      Paired c s' t' := by
  -- A page of the cache is written in both sessions; one of another cache only in the first,
  -- where the cache does not see it.
  induction pages generalizing s t with
  | nil => exact ⟨s, t, rfl, rfl, h⟩
  | cons e rest ih =>
      obtain ⟨c', path, i⟩ := e
      obtain rfl : path = s.store.pathOf c' := hpages _ List.mem_cons_self
      have hbeside := saved_beside c' i s
      have hrest : ∀ e ∈ rest, e.2.1 = (s.saved c' i).store.pathOf e.1 := fun e he =>
        (hpages e (List.mem_cons_of_mem _ he)).trans (hbeside.pathOf e.1).symm
      have hrun := writePage_run c' i s
      by_cases hc : c' = c
      · subst hc
        obtain ⟨s', t', hs', ht', h'⟩ := ih (saved_paired h i) hrest
        refine ⟨s', t', (run_bind_ok hrun _).trans hs', ?_, h'⟩
        rw [List.filter_cons_of_pos (by simp)]
        have hrun' := writePage_run c' i t
        rw [h.pathOf] at hrun'
        exact (run_bind_ok hrun' _).trans ht'
      · obtain ⟨s', t', hs', ht', h'⟩ := ih ((hbeside.paired h.left (Ne.symm hc)).symm.trans h) hrest
        refine ⟨s', t', (run_bind_ok hrun _).trans hs', ?_, h'⟩
        rwa [List.filter_cons_of_neg (by simpa using hc)]

/-- The table of caches has one entry for a cache at most. -/
lemma filter_toList (caches : Std.TreeMap CacheId CacheFile) (c : CacheId) :
    caches.toList.filter (fun e => e.1 = c) = (caches[c]?.map fun k => (c, k)).toList := by
  have hmem : ∀ e, e ∈ caches.toList.filter (fun e => e.1 = c) ↔ e.1 = c ∧ caches[c]? = some e.2 := by
    intro e
    rw [List.mem_filter, decide_eq_true_eq, and_comm]
    refine and_congr_right fun hc => ?_
    rw [← hc]
    exact Std.TreeMap.mem_toList_iff_getElem?_eq_some
  cases hk : caches[c]? with
  | none =>
      refine List.eq_nil_iff_forall_not_mem.mpr fun e he => ?_
      have := ((hmem e).mp he).2
      rw [hk] at this
      cases this
  | some k =>
      -- The keys of the table are distinct, so the list holds the entry once.
      refine List.perm_singleton.mp ((List.perm_ext_iff_of_nodup ?_ (List.nodup_singleton _)).mpr fun e => ?_)
      · refine List.Nodup.filter _ (Std.TreeMap.distinct_keys_toList.imp fun {a b} hne hab => hne ?_)
        rw [hab]
        exact Std.ReflCmp.compare_self
      · rw [hmem, hk, List.mem_singleton, Prod.ext_iff, Option.some_inj, eq_comm (a := k)]

/-- The pages of a cache among all pages in memory. -/
lemma pagesInMemory_filter (caches : List (CacheId × CacheFile)) (c : CacheId) :
    (pagesInMemory caches).filter (fun e => e.1 = c) = pagesInMemory (caches.filter fun e => e.1 = c) := by
  -- All pages of an entry are of its cache.
  induction caches with
  | nil => rfl
  | cons e rest ih =>
      rw [pagesInMemory, List.flatMap_cons, List.filter_append, ← pagesInMemory, ih]
      by_cases hc : e.1 = c
      · rw [List.filter_cons_of_pos (by simpa using hc), List.filter_eq_self.mpr]
        · rfl
        · intro e' he'
          obtain ⟨i, -, rfl⟩ := List.mem_map.mp he'
          simpa using hc
      · rw [List.filter_cons_of_neg (by simpa using hc), List.filter_eq_nil_iff.mpr]
        · rfl
        · intro e' he'
          obtain ⟨i, -, rfl⟩ := List.mem_map.mp he'
          simpa using hc

/-- A flush comes to its end, and a cache sees of it what becomes of its own pages. -/
theorem flush_paired (h : Paired c s t) :
    (flush s).1 = .ok () ∧ Paired c (flush s).2 (flush t).2 := by
  have hpages : ∀ s : Session MemoryDisk, s.Placed →
      ∀ e ∈ pagesInMemory s.store.caches.toList, e.2.1 = s.store.pathOf e.1 := by
    intro s hs e he
    obtain ⟨e', he', hin⟩ := List.mem_flatMap.mp he
    obtain ⟨i, -, rfl⟩ := List.mem_map.mp hin
    exact hs e'.1 e'.2 (Std.TreeMap.mem_toList_iff_getElem?_eq_some.mp he')
  have hsync : ∀ (paths : List String) (s : Session MemoryDisk),
      (paths.forM fun path => perform (Device.sync path)) s = (.ok (), s) := by
    intro paths s
    induction paths with
    | nil => rfl
    | cons path rest ih => exact (run_bind_ok (perform_run _ s) _).trans ih
  have hflush : ∀ s s' : Session MemoryDisk,
      ((pagesInMemory s.store.caches.toList).forM fun e => writePage e.1 e.2.1 e.2.2) s = (.ok (), s') →
      flush s = (.ok (), s') := by
    intro s s' hrun
    rw [flush_eq_flushIn, flushIn, run_bind_ok (run_get s)]
    exact (run_bind_ok hrun _).trans (hsync _ s')
  -- both flushes are compared with one that writes the pages of the cache alone
  obtain ⟨s', u, hs', hu, hsu⟩ := forM_writePage_paired _ h (hpages s h.left)
  obtain ⟨t', v, ht', hv, htv⟩ := forM_writePage_paired _ (Paired.refl (c := c) h.right) (hpages t h.right)
  rw [pagesInMemory_filter, filter_toList] at hu hv
  rw [h.cache, hu] at hv
  obtain rfl : u = v := congrArg Prod.snd hv
  rw [hflush s s' hs', hflush t t' ht']
  exact ⟨rfl, hsu.trans htv.symm⟩

/-! ### Opening the store again -/

/-- The store is opened again with other settings, if these are not refused. -/
def reopen {δ : Type} [Device δ] (options : Options) (s : Session δ) : Session δ :=
  match start s.store.folder options s.device with
  | (.ok store, device) => ⟨device, store⟩
  | (.error _, device) => { s with device }

/-- A store that was just opened has no open cache. -/
lemma placed_of_start {δ : Type} [Device δ] {folder : String} {options : Options} {d d' : δ}
    {store : PageStore} (hstart : start folder options d = (.ok store, d')) :
    (⟨d', store⟩ : Session δ).Placed := fun c k hk => by
  rw [show store.caches[c]? = none from closed_of_start hstart c] at hk
  cases hk

/-- A store opened anew knows nothing but the files. -/
lemma reopen_paired (h : Paired c s t) (options : Options) :
    Paired c (s.reopen options) (t.reopen options) := by
  cases hcheck : options.check with
  | error e =>
      have hrefused : ∀ s : Session MemoryDisk, s.reopen options = s := fun s => by
        rw [reopen, start, hcheck]
      rwa [hrefused, hrefused]
  | ok =>
      have hopened : ∀ s : Session MemoryDisk,
          s.reopen options = ⟨s.device, { folder := s.store.folder, options }⟩ := fun s => by
        rw [reopen, start_memoryDisk hcheck]
      rw [hopened, hopened, h.folder]
      exact ⟨placed_of_start (start_memoryDisk hcheck s.device),
        placed_of_start (start_memoryDisk hcheck t.device), rfl, rfl, rfl, h.content⟩

end Session

end PageCatalog
