import Mathlib.Tactic
import PageCatalog.Proofs.Device.Account
import PageCatalog.Proofs.Store.Backed
import PageCatalog.Proofs.Store.Opening

/-!
The caches of a session as arrays of pages.

A cache is the array of its pages, whether its file has been opened or not, and whichever of
its pages are in memory. Every call changes the array of its own cache as it says, or is
refused and changes none. No file changes before the next flush.

* `Session.file`, `Session.array`: the file of a cache, and its pages.
* `Session.Backed`: a session that goes with the files of its device.
* `Session.Same`: nothing has changed for a cache.
* `Session.Turns`: a cache becomes another array, and nothing else changes.
* `cacheFile_turns`, `frame_turns`, `view_turns`, `edit_turns`, `allocate_turns`, `free_turns`.
-/

namespace PageCatalog

namespace Session

variable {δ α : Type} [Device δ]

/-- The bytes of the file of a cache. -/
def file (A : Device.Account δ) (s : Session δ) (c : CacheId) : Bytes :=
  A.bytes s.device (s.store.pathOf c)

/-- The pages of a cache, whether or not it is open. -/
def array (A : Device.Account δ) (s : Session δ) (c : CacheId) : PageArray :=
  match s.store.caches[c]? with
  | some k => k.array (s.file A c) s.size
  | none => .ofFile (s.file A c) s.size

/-- A session goes with the file of a cache. -/
structure Backed (A : Device.Account δ) (c : CacheId) (s : Session δ) : Prop where
  honest : A.Honest s.device
  size_pos : 0 < s.size
  apart : ∀ c', c' ≠ c → A.Apart (s.store.pathOf c') (s.store.pathOf c)
  path : ∀ {k}, s.store.caches[c]? = some k → k.path = s.store.pathOf c
  opened : ∀ {k}, s.store.caches[c]? = some k → k.Backed (s.file A c) s.size
  present : ∀ {k}, s.store.caches[c]? = some k → A.Present s.device (s.store.pathOf c)
  closed : s.store.caches[c]? = none → s.size ∣ (s.file A c).length

/-- The pages of one cache become those of an array. The other caches, and all files, stay as
they are. -/
structure Turns (A : Device.Account δ) (c : CacheId) (a : PageArray) (s s' : Session δ) : Prop where
  backed : s'.Backed A c
  array : s'.array A c = a
  files : A.bytes s'.device = A.bytes s.device
  present : ∀ {path}, A.Present s.device path → A.Present s'.device path
  folder : s'.store.folder = s.store.folder
  only : s.Only c s'

variable {A : Device.Account δ} {c c' : CacheId} {s s' s'' : Session δ} {a a' : PageArray}
  {k : CacheFile} {i : ℕ} {id : PageId} {f : Frame}

/-- The array of an open cache is that of its frames and its file. -/
lemma array_open (hk : s.store.caches[c]? = some k) : s.array A c = k.array (s.file A c) s.size := by
  rw [array, hk]

/-- The array of a closed cache is that of its file. -/
lemma array_closed (hk : s.store.caches[c]? = none) : s.array A c = .ofFile (s.file A c) s.size := by
  rw [array, hk]

/-- A cache that is asked nothing. -/
lemma Turns.refl (h : s.Backed A c) : s.Turns A c (s.array A c) s :=
  ⟨h, rfl, rfl, fun h => h, rfl, .refl s⟩

/-- One call after another. -/
lemma Turns.trans (h : s.Turns A c a s') (h' : s'.Turns A c a' s'') : s.Turns A c a' s'' :=
  ⟨h'.backed, h'.array, h'.files.trans h.files, fun hpath => h'.present (h.present hpath),
    h'.folder.trans h.folder, h.only.trans h'.only⟩

/-- A cache that stays what it became. -/
lemma Turns.stay (h : s.Turns A c a s') (h' : s'.Turns A c (s'.array A c) s'') :
    s.Turns A c a s'' :=
  h.array ▸ h.trans h'

/-- The page size is the same. -/
lemma Turns.size (h : s.Turns A c a s') : s'.size = s.size := by
  rw [Session.size, h.only.options]

/-- The caches have the paths that they had. -/
lemma Turns.pathOf (h : s.Turns A c a s') (c' : CacheId) :
    s'.store.pathOf c' = s.store.pathOf c' := by
  rw [PageStore.pathOf, h.folder, PageStore.pathOf]

/-- No file has changed. -/
lemma Turns.file (h : s.Turns A c a s') (c' : CacheId) : s'.file A c' = s.file A c' := by
  rw [Session.file, h.files, h.pathOf, Session.file]

/-- A cache, its file and the settings are the same in two sessions. -/
structure Same (A : Device.Account δ) (c : CacheId) (s s' : Session δ) : Prop where
  honest : A.Honest s'.device
  cache : s'.store.caches[c]? = s.store.caches[c]?
  folder : s'.store.folder = s.store.folder
  options : s'.store.options = s.store.options
  file : s'.file A c = s.file A c
  present : A.Present s.device (s.store.pathOf c) → A.Present s'.device (s.store.pathOf c)

/-- The page size is the same. -/
lemma Same.size (h : s.Same A c s') : s'.size = s.size := by rw [Session.size, h.options]

/-- The cache is the same array. -/
lemma Same.array (h : s.Same A c s') : s'.array A c = s.array A c := by
  rw [Session.array, h.cache, h.file, h.size, Session.array]

/-- The cache goes with its file as before. -/
lemma Same.backed (h : s.Same A c s') (hs : s.Backed A c) : s'.Backed A c where
  honest := h.honest
  size_pos := h.size ▸ hs.size_pos
  apart c' hc := by
    rw [PageStore.pathOf, PageStore.pathOf, h.folder]
    exact hs.apart c' hc
  path hk := by
    rw [PageStore.pathOf, h.folder]
    exact hs.path (h.cache ▸ hk)
  opened hk := by
    rw [h.file, h.size]
    exact hs.opened (h.cache ▸ hk)
  present hk := by
    rw [PageStore.pathOf, h.folder]
    exact h.present (hs.present (h.cache ▸ hk))
  closed hk := by
    rw [h.file, h.size]
    exact hs.closed (h.cache ▸ hk)

/-- A change of one cache leaves the others the same. -/
lemma Turns.other (h : s.Turns A c a s') (hc : c' ≠ c) : s.Same A c' s' :=
  ⟨h.backed.honest, h.only.others c' hc, h.folder, h.only.options, h.file c', h.present⟩

/-! ### Calls of the device -/

/-- The device was asked something, and no file has changed. -/
structure Asks (A : Device.Account δ) (s s' : Session δ) : Prop where
  store : s'.store = s.store
  stays : A.Stays s.device s'.device

/-- Nothing was asked. -/
lemma Asks.refl (h : A.Honest s.device) : s.Asks A s := ⟨rfl, .refl h⟩

/-- One question after another. -/
lemma Asks.trans (h : s.Asks A s') (h' : s'.Asks A s'') : s.Asks A s'' :=
  ⟨h'.store.trans h.store, h.stays.trans h'.stays⟩

/-- No file has changed. -/
lemma Asks.file (h : s.Asks A s') (c : CacheId) : s'.file A c = s.file A c := by
  rw [Session.file, h.stays.bytes, h.store, Session.file]

/-- The page size is the same. -/
lemma Asks.size (h : s.Asks A s') : s'.size = s.size := by rw [Session.size, h.store]

/-- Every cache is the same. -/
lemma Asks.same (h : s.Asks A s') (c : CacheId) : s.Same A c s' :=
  ⟨h.stays.honest, by rw [h.store], by rw [h.store], by rw [h.store], h.file c,
    h.stays.present⟩

/-- A cache is the same array after the device was asked. -/
lemma Asks.turns (h : s.Asks A s') (hs : s.Backed A c) : s.Turns A c (s.array A c) s' :=
  ⟨(h.same c).backed hs, (h.same c).array, h.stays.bytes, h.stays.present,
    by rw [h.store], only_of_store h.store⟩

omit [Device δ] in
/-- What a call leaves on the device, whether or not it is answered. -/
lemma perform_keeps {P : δ → Prop} {call : DeviceM δ α} (h : P (call s.device).2) :
    Ends (perform call) s (fun _ s' => P s'.device) fun _ s' => P s'.device := by
  refine Ends.bind (Q := fun _ s' => P s'.device) (Ends.of_ok rfl h) ?_
  rintro (e | a) s' h'
  · exact Ends.of_error rfl h'
  · exact Ends.of_ok rfl h'

/-- A call that changes no file, on the device of a session. -/
lemma attempt_asks {call : DeviceM δ α} {Q : α → Prop}
    (hcall : Ends call s.device (fun a d' => A.Stays s.device d' ∧ Q a) fun _ d' => A.Stays s.device d') :
    Ends (attempt call) s (fun r s' => s.Asks A s' ∧ ∀ a, r = .ok a → Q a) (fun _ _ => False) := by
  rcases hrun : call s.device with ⟨e | a, d'⟩
  · refine Ends.of_ok (a := .error e) (t := ⟨d', s.store⟩) ?_ ⟨⟨rfl, hcall.error hrun⟩, fun a h => ?_⟩
    · rw [attempt, hrun]
    · cases h
  · refine Ends.of_ok (a := .ok a) (t := ⟨d', s.store⟩) ?_ ⟨⟨rfl, (hcall.ok hrun).1⟩, fun a' h => ?_⟩
    · rw [attempt, hrun]
    · cases h
      exact (hcall.ok hrun).2

/-- A call of the device that leaves its files as they are. -/
lemma perform_asks {call : DeviceM δ α} {Q : α → Prop}
    (hcall : Ends call s.device (fun a d' => A.Stays s.device d' ∧ Q a) fun _ d' => A.Stays s.device d') :
    Ends (perform call) s (fun a s' => s.Asks A s' ∧ Q a) (fun e s' => e.IsIo ∧ s.Asks A s') := by
  refine ((attempt_asks hcall).mono_error fun _ _ h => h.elim).bind ?_
  rintro (e | a) s' ⟨hasks, hQ⟩
  · exact Ends.of_error rfl ⟨⟨e, rfl⟩, hasks⟩
  · exact Ends.of_ok rfl ⟨hasks, hQ a rfl⟩

/-- A file is there after it was attached. -/
lemma perform_attach (hs : A.Honest s.device) {path : String} :
    Ends (perform (Device.attach path)) s (fun _ s' => s.Asks A s' ∧ A.Present s'.device path)
      (fun e s' => e.IsIo ∧ s.Asks A s') := by
  have hend := A.attach_calm path s.device hs
  have hattempt : ∀ {r d'}, Device.attach path s.device = (r, d') →
      attempt (Device.attach path) s = (.ok r, ⟨d', s.store⟩) := fun {r d'} hrun => by
    rw [attempt, hrun]
  rcases hrun : Device.attach path s.device with ⟨e | ⟨⟩, d'⟩
  · exact Ends.bind_ok (hattempt hrun) (Ends.of_error rfl ⟨⟨e, rfl⟩, rfl, hend.error hrun⟩)
  · exact Ends.bind_ok (hattempt hrun)
      (Ends.of_ok rfl ⟨⟨rfl, (hend.ok hrun).1⟩, A.attach_present hs hrun⟩)

/-! ### Opening a store and a cache -/

/-- No file changes when a store is opened. -/
lemma start_stays {folder : String} {options : Options} {d d' : δ} {store : PageStore}
    (hstart : start folder options d = (.ok store, d')) (hd : A.Honest d) : A.Stays d d' := by
  obtain ⟨-, -, ⟨-, hmade⟩ | rfl⟩ := store_of_start hstart
  · exact (Ends.ok (A.makeDirs_calm folder d hd) hmade).1
  · exact .refl hd

/-- A store that was opened goes with each file that is cut into whole pages, and shows the
pages of that file. -/
lemma start_backed {folder : String} {options : Options} {d d' : δ} {store : PageStore}
    (hstart : start folder options d = (.ok store, d')) (hd : A.Honest d)
    (hapart : ∀ c', c' ≠ c → A.Apart (store.pathOf c') (store.pathOf c))
    (hwhole : options.pageSize ∣ (A.bytes d (store.pathOf c)).length) :
    (⟨d', store⟩ : Session δ).Backed A c ∧ A.Stays d d' ∧
      (⟨d', store⟩ : Session δ).array A c = .ofFile (A.bytes d (store.pathOf c)) options.pageSize := by
  have hsize := (size_of_start hstart).1
  have hstays := start_stays hstart hd
  obtain ⟨-, rfl, -⟩ := store_of_start hstart
  have hnone : (⟨d', { folder, options }⟩ : Session δ).store.caches[c]? = none :=
    closed_of_start hstart c
  have hfile : (⟨d', { folder, options }⟩ : Session δ).file A c
      = A.bytes d (PageStore.pathOf { folder, options } c) := by
    rw [file, hstays.bytes]
  refine ⟨⟨hstays.honest, by omega, hapart, fun hk => ?_, fun hk => ?_, fun hk => ?_, fun _ => ?_⟩,
    hstays, ?_⟩
  · rw [hnone] at hk
    cases hk
  · rw [hnone] at hk
    cases hk
  · rw [hnone] at hk
    cases hk
  · rw [hfile]
    exact hwhole
  · rw [array_closed hnone, hfile]

/-- A file that is opened becomes the array it was taken for. -/
lemma opened_turns (hs : s.Backed A c) (hnone : s.store.caches[c]? = none) (hasks : s.Asks A s')
    (hpresent : A.Present s'.device (s.store.pathOf c)) :
    s.Turns A c (s.array A c) { s' with
      store.caches := s'.store.caches.insert c (.opening (s.store.pathOf c) (s.file A c) s.size) } := by
  have hturns := hasks.turns hs
  set k := CacheFile.opening (s.store.pathOf c) (s.file A c) s.size with hk
  set s'' : Session δ := { s' with store.caches := s'.store.caches.insert c k } with hs''
  have hopen : s''.store.caches[c]? = some k := Std.TreeMap.getElem?_insert_self
  have hfile : s''.file A c = s.file A c := hasks.file c
  have hsize : s''.size = s.size := hasks.size
  refine ⟨⟨hturns.backed.honest, hturns.backed.size_pos, hturns.backed.apart, fun hk' => ?_,
    fun hk' => ?_, fun _ => (hturns.pathOf c).symm ▸ hpresent, fun hk' => ?_⟩, ?_, hturns.files,
    hturns.present, hturns.folder, hturns.only.trans (only_insert k)⟩
  · obtain rfl : k = _ := Option.some.inj (hopen.symm.trans hk')
    exact (hturns.pathOf c).symm
  · obtain rfl : k = _ := Option.some.inj (hopen.symm.trans hk')
    rw [hfile, hsize]
    exact CacheFile.backed_opened (hs.closed hnone) _
  · rw [hopen] at hk'
    cases hk'
  · rw [array_open hopen, hfile, hsize, array_closed hnone]
    exact CacheFile.array_opened _

/-- A cache is open after its first use, unless the device fails. Its pages are the same. -/
lemma cacheFile_turns (hs : s.Backed A c) :
    Ends (cacheFile c) s
      (fun k s' => s'.store.caches[c]? = some k ∧ s.Turns A c (s.array A c) s')
      (fun e s' => e.IsIo ∧ s.Turns A c (s.array A c) s') := by
  cases hk : s.store.caches[c]? with
  | some k => exact Ends.of_ok (cacheFile_open hk) ⟨hk, .refl hs⟩
  | none =>
      refine cacheFile_ends_of_steps (I := s.Asks A) (K := fun n s₂ => n = (s.file A c).length ∧ s.Asks A s₂ ∧
        A.Present s₂.device (s.store.pathOf c)) hk (fun _ => .refl hs.honest) (fun _ => ?_)
        (fun s₁ h₁ => ?_) ?_ ?_
      · refine (attempt_asks (A.length_calm _ _ hs.honest)).mono_ok ?_
        rintro (e | n) s₁ ⟨h₁, -⟩
        · exact ⟨⟨_, rfl⟩, h₁.turns hs⟩
        · exact h₁
      · refine ((perform_attach h₁.stays.honest).mono_error
          fun _ _ h => ⟨h.1, (h₁.trans h.2).turns hs⟩).bind ?_
        rintro - s₂ ⟨h₂, hpresent⟩
        refine (perform_asks (A.size_ends h₂.stays.honest hpresent)).mono ?_
          fun _ _ h => ⟨h.1, ((h₁.trans h₂).trans h.2).turns hs⟩
        rintro n s₃ ⟨h₃, hn⟩
        exact ⟨by rw [hn, (h₁.trans h₂).stays.bytes, file], (h₁.trans h₂).trans h₃,
          h₃.stays.present hpresent⟩
      · -- a file that is not cut into pages does not occur, for a closed cache goes with its file
        rintro n s₂ ⟨rfl, -⟩ hcut
        exact absurd (hs.closed hk) hcut
      · rintro n s₂ k ⟨rfl, hasks, hpresent⟩ - rfl
        exact ⟨Std.TreeMap.getElem?_insert_self, opened_turns hs hk hasks hpresent⟩

/-! ### Pages in memory -/

/-- An open cache is changed in memory. -/
lemma modify_turns (hs : s.Backed A c) (hk : s.store.caches[c]? = some k) {g : CacheFile → CacheFile}
    (hpath : (g k).path = k.path) (hg : (g k).Backed (s.file A c) s.size) :
    s.Turns A c ((g k).array (s.file A c) s.size)
      { s with store.caches := s.store.caches.modify c g } := by
  set s' : Session δ := { s with store.caches := s.store.caches.modify c g } with hs'
  have hopen : s'.store.caches[c]? = some (g k) := by simp [hs', hk]
  refine ⟨⟨hs.honest, hs.size_pos, hs.apart, fun hk' => ?_, fun hk' => ?_, fun _ => hs.present hk,
    fun hk' => ?_⟩, array_open hopen, rfl, fun h => h, rfl, only_modify g⟩
  · obtain rfl : g k = _ := Option.some.inj (hopen.symm.trans hk')
    exact hpath.trans (hs.path hk)
  · obtain rfl : g k = _ := Option.some.inj (hopen.symm.trans hk')
    exact hg
  · rw [hopen] at hk'
    cases hk'

/-- A page is loaded as it stands in the file. -/
lemma load_asks (hs : s.Backed A c) (hk : s.store.caches[c]? = some k) (hnone : k.frames[i]? = none) :
    Ends (load k.path i) s
      (fun p s' => p = Bytes.pageAt (s.file A c) s.size i ∧ s.Asks A s')
      (fun e s' => e.IsIo ∧ s.Asks A s') := by
  rw [hs.path hk]
  refine Ends.bind_ok (show pageSize s = (.ok s.size, s) from rfl) ?_
  refine (perform_asks (A.size_ends hs.honest (hs.present hk))).bind ?_
  rintro n s₁ ⟨h₁, hn⟩
  obtain rfl : n = (s.file A c).length := hn
  split
  · rename_i hwhole
    refine (perform_asks (A.readExact_calm _ _ _ _ h₁.stays.honest)).mono ?_
      fun _ _ h => ⟨h.1, h₁.trans h.2⟩
    rintro part s₂ ⟨h₂, hpart⟩
    refine ⟨?_, h₁.trans h₂⟩
    rw [Bytes.pageAt_of_le hwhole, ← Page.ofBytes_bytes part, Page.bytes, hpart, h₁.stays.bytes, file]
  · rename_i hpart
    have hbehind := ((hs.opened hk).not_cut hs.size_pos hnone).resolve_left hpart
    exact Ends.of_ok rfl ⟨(Bytes.pageAt_of_length_le hbehind).symm, h₁⟩

/-- A page cannot be had: the device fails, or there is none. -/
def Refuses (a : PageArray) (c : CacheId) (id : PageId) (e : Failure) : Prop :=
  e.IsIo ∨ ¬ a.Has id.index ∧ e = .error (.pageNotFound id c)

/-- A page is in memory after it was asked for. -/
lemma frame_turns (hs : s.Backed A c) (id : PageId) :
    Ends (frame c id) s
      (fun f s' => (s.array A c).Has id.index ∧ f.freed = false ∧
        f.bytes = (s.array A c).page id.index ∧ s.Turns A c (s.array A c) s' ∧
        ∃ k, s'.store.caches[c]? = some k ∧ k.frames[id.index]? = some f)
      (fun e s' => Refuses (s.array A c) c id e ∧ s.Turns A c (s.array A c) s') := by
  have harray : ∀ {k s₁}, s₁.store.caches[c]? = some k → s.Turns A c (s.array A c) s₁ →
      s.array A c = k.array (s₁.file A c) s₁.size :=
    fun hk h₁ => h₁.array.symm.trans (array_open hk)
  -- In the order of the steps: an index behind the last page, a freed page, a page in memory, and
  -- one that is loaded. The last one comes into memory as it is in the array.
  refine frame_ends_of_steps ((cacheFile_turns hs).mono_error fun _ _ h => ⟨.inl h.1, h.2⟩) ?_ ?_ ?_ ?_
  · rintro k s₁ ⟨hk, h₁⟩ hi
    refine ⟨.inr ⟨fun hhas => ?_, rfl⟩, h₁⟩
    rw [harray hk h₁] at hhas
    exact absurd hhas.1 (Nat.not_lt.mpr hi)
  · rintro k s₁ f ⟨hk, h₁⟩ hf hfreed
    refine ⟨.inr ⟨fun hhas => ?_, rfl⟩, h₁⟩
    rw [harray hk h₁] at hhas
    exact hhas.2 (CacheFile.mem_freed.mpr ⟨f, hf, hfreed⟩)
  · rintro k s₁ f ⟨hk, h₁⟩ hi hf hfreed
    refine ⟨?_, hfreed, ?_, h₁, k, hk, hf⟩
    · rw [harray hk h₁]
      refine ⟨hi, fun hin => ?_⟩
      obtain ⟨g, hg, hgfreed⟩ := CacheFile.mem_freed.mp hin
      obtain rfl : f = g := Option.some.inj (hf.symm.trans hg)
      rw [hfreed] at hgfreed
      cases hgfreed
    · rw [harray hk h₁, CacheFile.page_of_frame hf]
  · rintro k s₁ ⟨hk, h₁⟩ hi hf
    refine (load_asks h₁.backed hk hf).mono ?_
      fun _ _ h => ⟨.inl h.1, h₁.stay (h.2.turns h₁.backed)⟩
    rintro _ s₂ ⟨rfl, h₂⟩
    have h₁₂ := h₁.stay (h₂.turns h₁.backed)
    have hk₂ : s₂.store.caches[c]? = some k := by rw [h₂.store]; exact hk
    have hout : id.index ∉ k.freed := fun hin => by
      obtain ⟨g, hg, -⟩ := CacheFile.mem_freed.mp hin
      rw [hf] at hg
      cases hg
    set f : Frame := { id, bytes := Bytes.pageAt (s₁.file A c) s₁.size id.index, dirty := false }
      with hfdef
    have hput := modify_turns (g := fun k => { k with frames := k.frames.insert id.index f })
      h₁₂.backed hk₂ rfl (h₁₂.backed.opened hk₂ |>.load hf hi (by rw [h₂.file, h₂.size]) rfl)
    have hpage : (s.array A c).page id.index = f.bytes := by
      rw [harray hk h₁, CacheFile.page_of_none hf]
    have hsame : CacheFile.array { k with frames := k.frames.insert id.index f } (s₂.file A c) s₂.size
        = s.array A c := by
      rw [CacheFile.array_insert_kept k k.next id.index f rfl hout, h₂.file, h₂.size, ← hpage,
        harray hk h₁, Function.update_eq_self]
      rfl
    refine ⟨?_, rfl, hpage.symm, h₁₂.trans (hsame ▸ hput), _, withFrame_open hk₂ id.index f, ?_⟩
    · rw [harray hk h₁]
      exact ⟨hi, hout⟩
    · rw [getElem?_insert_frame, if_pos rfl]

/-! ### Questions and changes -/

/-- A question is asked to the page that the array has. -/
lemma view_turns (hs : s.Backed A c) (id : PageId) (q : Page → Except Failure α) :
    Ends (view c id q) s
      (fun r s' => (s.array A c).Has id.index ∧ q ((s.array A c).page id.index) = .ok r ∧
        s.Turns A c (s.array A c) s')
      (fun e s' => (Refuses (s.array A c) c id e ∨
        (s.array A c).Has id.index ∧ q ((s.array A c).page id.index) = .error e) ∧
        s.Turns A c (s.array A c) s') := by
  refine ((frame_turns hs id).mono_error fun _ _ h => ⟨.inl h.1, h.2⟩).bind ?_
  rintro f s' ⟨hhas, -, hbytes, hturns, -⟩
  rw [hbytes]
  cases hq : q ((s.array A c).page id.index) with
  | ok r => exact Ends.of_ok (settle_ok s') ⟨hhas, rfl, hturns⟩
  | error e => exact Ends.of_error rfl ⟨.inr ⟨hhas, rfl⟩, hturns⟩

/-- A page in memory gets another frame, which has to be written. -/
lemma withFrame_turns (hs : s.Backed A c) (hk : s.store.caches[c]? = some k)
    (hf : k.frames[i]? = some f) {g : Frame} (hsize : g.bytes.size = s.size) (hdirty : g.dirty = true) :
    s.Turns A c ⟨(s.array A c).count,
        if g.freed then insert i (s.array A c).freed else (s.array A c).freed.erase i,
        Function.update (s.array A c).page i g.bytes⟩ (s.withFrame c i g) := by
  have hbacked := hs.opened hk
  rw [array_open hk]
  have hturns := modify_turns (g := fun k => { k with frames := k.frames.insert i g }) hs hk rfl
    (hbacked.change (.inl rfl) hbacked.next_le (hbacked.index_lt hf) hsize hdirty)
  rwa [show CacheFile.array { k with frames := k.frames.insert i g } (s.file A c) s.size = _ from
    CacheFile.array_insert k k.next i g] at hturns

/-- A change is made to the page that the array has, also where it fails. -/
lemma edit_turns (hs : s.Backed A c) (id : PageId) {m : PageM α}
    (hm : ∀ p : Page, (m p).2.size = p.size) :
    Ends (edit c id m) s
      (fun r s' => (s.array A c).Has id.index ∧ (m ((s.array A c).page id.index)).1 = .ok r ∧
        s.Turns A c ((s.array A c).set id.index (m ((s.array A c).page id.index)).2) s')
      (fun e s' => Refuses (s.array A c) c id e ∧ s.Turns A c (s.array A c) s' ∨
        (s.array A c).Has id.index ∧ (m ((s.array A c).page id.index)).1 = .error e ∧
          s.Turns A c ((s.array A c).set id.index (m ((s.array A c).page id.index)).2) s') := by
  refine (frame_turns hs id).or_inl.bind ?_
  rintro f s' ⟨hhas, hfreed, hbytes, hturns, k, hk, hf⟩
  have hfsize : f.bytes.size = s.size := ((hturns.backed.opened hk).frame_size hf).trans hturns.size
  rw [← hbytes]
  rcases hrun : m.runOn f.bytes with ⟨r, q⟩
  have hm' : m f.bytes = (r, q) := hrun
  set g : Frame := { f with bytes := q, dirty := true } with hg
  have hqsize : g.bytes.size = s'.size := by
    rw [hturns.size, ← hfsize, ← hm f.bytes, hm']
  have hput := withFrame_turns hturns.backed hk hf hqsize rfl
  rw [show g.freed = false from hfreed, if_neg Bool.false_ne_true, hturns.array,
    Finset.erase_eq_of_notMem hhas.2] at hput
  rw [hm']
  refine Ends.bind_ok (putFrame_run c id.index g s') ?_
  cases r with
  | ok r => exact Ends.of_ok (settle_ok _) ⟨hhas, rfl, hturns.trans hput⟩
  | error e => exact Ends.of_error rfl (.inr ⟨hhas, rfl, hturns.trans hput⟩)

/-! ### New pages and freed pages -/

/-- A new page comes behind the others, as long as there are indexes. -/
lemma allocate_turns (hs : s.Backed A c) (partition : UInt16) (space : Space) :
    Ends (allocate c partition space) s
      (fun id s' => (s.array A c).count < CacheFile.indexLimit ∧
        id = .make partition space (s.array A c).count ∧
        s.Turns A c ((s.array A c).push s.size) s')
      (fun e s' => (e.IsIo ∨ CacheFile.indexLimit ≤ (s.array A c).count ∧ e = .error (.outOfSpace c)) ∧
        s.Turns A c (s.array A c) s') := by
  refine ((cacheFile_turns hs).mono_error fun _ _ h => ⟨.inl h.1, h.2⟩).bind ?_
  rintro k s' ⟨hk, hturns⟩
  have harray : s.array A c = k.array (s'.file A c) s'.size := hturns.array.symm.trans (array_open hk)
  have hcount : (s.array A c).count = k.next := by rw [harray, CacheFile.array]
  have hbacked := hturns.backed.opened hk
  rw [hcount]
  split
  · rename_i hfull
    exact Ends.of_error rfl ⟨.inr ⟨hfull, rfl⟩, hturns⟩
  · rename_i hlimit
    set f : Frame :=
      { id := PageId.make partition space k.next, bytes := Page.zeros s'.size, dirty := true } with hf
    have hfsize : f.bytes.size = s'.size := Page.size_zeros _
    have hout : k.next ∉ k.freed := fun hin => lt_irrefl _ (hbacked.freed_lt hin)
    have hput := modify_turns
      (g := fun k => { k with next := k.next + 1, frames := k.frames.insert k.next f })
      hturns.backed hk rfl
      (hbacked.change (.inr ⟨rfl, rfl⟩) (Nat.not_le.mp hlimit) (Nat.lt_succ_self _) hfsize rfl)
    rw [CacheFile.array_insert_kept k (k.next + 1) k.next f rfl hout] at hput
    -- The new frame is the new page of the array.
    have hpush : (s.array A c).push s.size
        = ⟨k.next + 1, k.freed, Function.update (k.array (s'.file A c) s'.size).page k.next f.bytes⟩ := by
      rw [harray, PageArray.push, hf, hturns.size]
      rfl
    exact Ends.of_ok rfl ⟨Nat.not_le.mp hlimit, rfl, hturns.trans (hpush ▸ hput)⟩

/-- A page is freed. The first one never is. -/
lemma free_turns (hs : s.Backed A c) (id : PageId) :
    Ends (free c id) s
      (fun _ s' => id.index ≠ 0 ∧ (s.array A c).Has id.index ∧
        s.Turns A c ((s.array A c).release id.index s.size) s')
      (fun e s' => (id.index = 0 ∧ e = .error (.corrupted (.metaFreed c)) ∨
        id.index ≠ 0 ∧ Refuses (s.array A c) c id e) ∧ s.Turns A c (s.array A c) s') := by
  rw [free]
  split
  · rename_i hmeta
    exact Ends.of_error rfl ⟨.inl ⟨hmeta, rfl⟩, .refl hs⟩
  rename_i hmeta
  refine ((frame_turns hs id).mono_error fun _ _ h => ⟨.inr ⟨hmeta, h.1⟩, h.2⟩).bind ?_
  rintro f s' ⟨hhas, -, -, hturns, k, hk, hf⟩
  have hfsize : f.bytes.size = s'.size := (hturns.backed.opened hk).frame_size hf
  set g : Frame := { f with bytes := Page.zeros f.bytes.size, dirty := true, freed := true } with hg
  have hgsize : g.bytes.size = s'.size := (Page.size_zeros _).trans hfsize
  have hput := withFrame_turns hturns.backed hk hf hgsize rfl
  have hrelease : (s.array A c).release id.index s.size = ⟨(s.array A c).count,
      insert id.index (s.array A c).freed, Function.update (s.array A c).page id.index g.bytes⟩ := by
    rw [PageArray.release, hg, hfsize, hturns.size]
  rw [show g.freed = true from rfl, if_pos rfl, hturns.array, ← hrelease] at hput
  exact Ends.of_ok (putFrame_run c id.index g s') ⟨hmeta, hhas, hturns.trans hput⟩

end Session

end PageCatalog
