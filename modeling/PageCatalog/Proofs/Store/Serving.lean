import Mathlib.Tactic
import PageCatalog.Proofs.Device.Service
import PageCatalog.Proofs.Store.Flushing

/-!
Sessions over a device that serves.

Where the device serves, no call on a cache fails for the sake of the device: it is answered
as the array of the pages of the cache says. Only a flush may be refused, by a device that is
full.

* `Session.Served`: a session over a device that serves one of its caches.
* `load_ready`, `load_whole`: pages of any file, and of an attached one.
* `cacheFile_served`, `frame_served`, `view_served`: calls that meet no error of the device.
* `flushIn_served`: a flush that comes to its end, or finds the device full; `flushIn_of_room`.
* `Session.look`, `Session.looks_served`: looking at pages one after the other.
-/

namespace PageCatalog

/-- A page is wholly in a file, or wholly behind its end. -/
def Bytes.Uncut (file : Bytes) (size i : ℕ) : Prop :=
  i * size + size ≤ file.length ∨ file.length ≤ i * size

namespace Session

variable {δ α : Type} [Device δ] {A : Device.Account δ} {folder : String} {own : Set String}
  (V : A.Service folder own)

/-- The device serves the file of a cache, and the file is there or may be made. -/
structure Served (c : CacheId) (s : Session δ) : Prop where
  ready : V.Ready s.device
  own : s.store.pathOf c ∈ own
  present : s.store.options.createIfMissing = true ∨ A.Present s.device (s.store.pathOf c)

variable {V} {c : CacheId} {s s' : Session δ} {i : ℕ} {id : PageId} {a : PageArray} {k : CacheFile}

lemma Served.turns {c' : CacheId} (h : s.Served V c) (hready : V.Ready s'.device)
    (hturns : s.Turns A c' a s') : s'.Served V c where
  ready := hready
  own := (hturns.pathOf c).symm ▸ h.own
  present := h.present.imp (fun hcreate => by rw [hturns.only.options, hcreate]) fun hpresent =>
    (hturns.pathOf c).symm ▸ hturns.present hpresent

/-! ### Calls of the device -/

/-- A call that changes no file and is not refused, on the device of a session. -/
lemma attempt_served {call : DeviceM δ α} {Q : α → Prop}
    (hcall : Ends call s.device (fun a d' => A.Stays s.device d' ∧ Q a) fun _ d' => A.Stays s.device d')
    (hserves : Ends call s.device (fun _ d => V.Ready d) fun _ _ => False) :
    Ends (attempt call) s
      (fun r s' => s.Asks A s' ∧ V.Ready s'.device ∧ ∃ a, r = .ok a ∧ Q a) (fun _ _ => False) := by
  rcases hrun : call s.device with ⟨e | a, d'⟩
  · exact (hserves.error hrun).elim
  · obtain ⟨hstays, hQ⟩ := hcall.ok hrun
    exact Ends.of_ok (a := .ok a) (t := ⟨d', s.store⟩) (by rw [attempt, hrun])
      ⟨⟨rfl, hstays⟩, hserves.ok hrun, a, rfl, hQ⟩

lemma perform_served {call : DeviceM δ α} {Q : α → Prop}
    (hcall : Ends call s.device (fun a d' => A.Stays s.device d' ∧ Q a) fun _ d' => A.Stays s.device d')
    (hserves : Ends call s.device (fun _ d => V.Ready d) fun _ _ => False) :
    Ends (perform call) s (fun a s' => s.Asks A s' ∧ V.Ready s'.device ∧ Q a) (fun _ _ => False) := by
  refine (attempt_served hcall hserves).bind ?_
  rintro _ s' ⟨hasks, hready, a, rfl, hQ⟩
  exact Ends.of_ok rfl ⟨hasks, hready, hQ⟩

/-- The size of an attached file is not refused. -/
lemma perform_size_served {path : String} (hs : A.Honest s.device) (h : V.Ready s.device)
    (hpath : A.Present s.device path) :
    Ends (perform (Device.size path)) s
      (fun n s' => s.Asks A s' ∧ V.Ready s'.device ∧ n = (A.bytes s.device path).length)
      (fun _ _ => False) :=
  perform_served (A.size_ends hs hpath)
    ((V.size_serves path s.device h).mono_error fun _ _ h => h.2 hpath)

/-! ### Pages of files -/

/-- Any page may be asked for, of any file: the device goes on to serve. -/
lemma load_ready (hs : A.Honest s.device) (hready : V.Ready s.device) (path : String) (i : ℕ) :
    Ends (load path i) s (fun _ s' => s.Asks A s' ∧ V.Ready s'.device)
      (fun _ s' => s.Asks A s' ∧ V.Ready s'.device) := by
  have hsize : V.Ready (Device.size path s.device).2 :=
    Ends.result (P := fun _ d => V.Ready d) ((V.size_serves path _ hready).mono_error fun _ _ h => h.1)
  refine Ends.bind_ok (show pageSize s = (.ok s.size, s) from rfl) ?_
  refine (((perform_asks (A.size_calm path _ hs)).and (perform_keeps hsize)).mono_error
    fun _ _ h => ⟨h.1.2, h.2⟩).bind ?_
  rintro n s₁ ⟨⟨h₁, -⟩, hready₁⟩
  split
  · exact ((perform_asks (A.readExact_calm _ _ _ _ h₁.stays.honest)).and
      (perform_keeps (V.readExact_ready path _ _ hready₁))).mono
      (fun _ _ h => ⟨h₁.trans h.1.1, h.2⟩) fun _ _ h => ⟨h₁.trans h.1.2, h.2⟩
  · exact Ends.of_ok rfl ⟨h₁, hready₁⟩

/-- A page of an attached file that no end of the file cuts is loaded without fail, as it stands
in the file. -/
lemma load_whole (hs : A.Honest s.device) (hready : V.Ready s.device) {path : String}
    (hpath : A.Present s.device path) (i : ℕ) :
    Ends (load path i) s
      (fun p _ => Bytes.Uncut (A.bytes s.device path) s.size i →
        p = Bytes.pageAt (A.bytes s.device path) s.size i)
      (fun _ _ => False) := by
  refine Ends.bind_ok (show pageSize s = (.ok s.size, s) from rfl) ?_
  refine (perform_size_served hs hready hpath).bind ?_
  rintro n s₁ ⟨h₁, hready₁, hn⟩
  obtain rfl : n = (A.bytes s.device path).length := hn
  split
  · rename_i hinside
    have hinside' : i * s.size + s.size ≤ (A.bytes s₁.device path).length := by
      rw [h₁.stays.bytes]
      exact hinside
    refine (perform_served (A.readExact_calm _ _ _ _ h₁.stays.honest)
      (V.readExact_serves h₁.stays.honest hready₁ (h₁.stays.present hpath) hinside')).mono_ok ?_
    rintro part s₂ ⟨-, -, hpart⟩ -
    rw [Bytes.pageAt_of_le hinside, ← Page.ofBytes_bytes part, Page.bytes, hpart, h₁.stays.bytes]
  · rename_i houtside
    refine Ends.of_ok rfl fun huncut => ?_
    exact (Bytes.pageAt_of_length_le (huncut.resolve_left houtside)).symm

/-! ### Calls on a cache -/

/-- A cache is opened without fail. -/
lemma cacheFile_served (hs : s.Backed A c) (h : s.Served V c) :
    Ends (cacheFile c) s (fun _ s' => V.Ready s'.device) (fun _ _ => False) := by
  cases hk : s.store.caches[c]? with
  | some k => exact Ends.of_ok (cacheFile_open hk) h.ready
  | none =>
      refine cacheFile_ends_of_steps (I := fun s₁ => s.Asks A s₁ ∧ V.Ready s₁.device)
        (K := fun n s₂ => n = (s.file A c).length ∧ V.Ready s₂.device) hk
        (fun _ => ⟨.refl hs.honest, h.ready⟩) (fun hcreate => ?_) ?_ ?_ fun _ _ _ h₂ _ _ => h₂.2
      · refine (attempt_served (A.length_calm _ _ hs.honest)
          (V.length_serves _ _ h.ready (h.present.resolve_left hcreate))).mono_ok ?_
        rintro _ s₁ ⟨h₁, hready₁, n, rfl, -⟩
        exact ⟨h₁, hready₁⟩
      · rintro s₁ ⟨h₁, hready₁⟩
        refine ((perform_attach h₁.stays.honest).and (perform_served (A.attach_calm _ _ h₁.stays.honest)
          (V.attach_serves _ h.own _ hready₁))).mono_error (fun _ _ h => h.2.elim) |>.bind ?_
        rintro - s₂ ⟨⟨h₂, hpresent⟩, -, hready₂, -⟩
        refine (perform_size_served h₂.stays.honest hready₂ hpresent).mono_ok ?_
        rintro n s₃ ⟨h₃, hready₃, hn⟩
        exact ⟨by rw [hn, (h₁.trans h₂).stays.bytes, file], hready₃⟩
      · rintro n s₂ ⟨rfl, -⟩ hcut
        exact hcut (hs.closed hk)

/-- A page of an open cache is loaded without fail. -/
lemma load_served (hs : s.Backed A c) (h : V.Ready s.device) (hk : s.store.caches[c]? = some k) :
    Ends (load k.path i) s (fun _ s' => V.Ready s'.device) (fun _ _ => False) := by
  rw [hs.path hk]
  exact ((load_ready hs.honest h _ i).and (load_whole hs.honest h (hs.present hk) i)).mono
    (fun _ _ h => h.1.2) fun _ _ h => h.2

/-- Whether a page can be had does not depend on the device. -/
lemma frame_served (hs : s.Backed A c) (h : s.Served V c) (id : PageId) :
    Ends (frame c id) s (fun _ s' => V.Ready s'.device)
      (fun e s' => ¬ e.IsIo ∧ V.Ready s'.device) := by
  have hnotFound : ¬ (Failure.error (.pageNotFound id c)).IsIo := fun ⟨_, he⟩ => by cases he
  refine frame_ends_of_steps (((cacheFile_turns hs).and (cacheFile_served hs h)).mono_error
    fun _ _ h => h.2.elim) (fun _ _ h _ => ⟨hnotFound, h.2⟩) (fun _ _ _ h _ _ => ⟨hnotFound, h.2⟩)
    (fun _ _ _ h _ _ _ => h.2) ?_
  rintro k s₁ ⟨⟨hk, h₁⟩, hready₁⟩ - -
  exact (load_served h₁.backed hready₁ hk).mono_error fun _ _ h => h.elim

/-- Only a question may fail as the device does. -/
lemma view_served (hs : s.Backed A c) (h : s.Served V c) (id : PageId) (q : Page → Except Failure α) :
    Ends (view c id q) s (fun _ s' => V.Ready s'.device)
      (fun e s' => (e.IsIo → ∃ p, q p = .error e) ∧ V.Ready s'.device) := by
  refine ((frame_served hs h id).mono_error fun _ _ h => ⟨fun hio => (h.1 hio).elim, h.2⟩).bind ?_
  intro f s' hready
  cases hq : q f.bytes with
  | ok r => exact Ends.of_ok (settle_ok s') hready
  | error e => exact Ends.of_error rfl ⟨fun _ => ⟨_, hq⟩, hready⟩

/-! ### Flushing -/

section Flush

variable {C : Set CacheId}

/-- The device is full somewhere among the pages of some caches. -/
def Full (V : A.Service folder own) (C : Set CacheId) (s : Session δ) : Prop :=
  ∃ c ∈ C, ∃ pos < (s.array A c).count * s.size, ¬ V.Room pos

lemma Saves.full (h : s.Saves A C s') (hfull : s'.Full V C) : s.Full V C := by
  obtain ⟨c, hc, pos, hpos, hroom⟩ := hfull
  rw [h.array c hc, h.size] at hpos
  exact ⟨c, hc, pos, hpos, hroom⟩

/-- A page is written unless the device is full. -/
lemma writePage_served (hs : s.Backed A c) (hc : c ∈ C) (hready : V.Ready s.device) (i : ℕ) :
    Ends (writePage c (s.store.pathOf c) i) s (fun _ s' => V.Ready s'.device)
      (fun _ s' => V.Ready s'.device ∧ s.Full V C) := by
  refine Ends.bind_ok (run_get s) ?_
  cases hf : (s.store.caches[c]?).bind (·.frames[i]?) with
  | none => exact Ends.of_ok rfl hready
  | some f =>
      obtain ⟨k, hk, hf⟩ := Option.bind_eq_some_iff.mp hf
      simp only
      split
      swap
      · exact Ends.of_ok rfl hready
      have hbacked := hs.opened hk
      have hinside : (i + 1) * s.size ≤ (s.array A c).count * s.size := by
        rw [array_open hk]
        exact Nat.mul_le_mul_right _ (hbacked.index_lt hf)
      have hserves := V.writeExact_serves (i * s.size) f.bytes hs.honest hready (hs.present hk)
      have hattempt : ∀ {r d'}, Device.writeExact (s.store.pathOf c) (i * s.size) f.bytes s.device = (r, d') →
          attempt (Device.writeExact (s.store.pathOf c) (i * s.size) f.bytes) s = (.ok r, ⟨d', s.store⟩) :=
        fun {r d'} hrun => by rw [attempt, hrun]
      refine Ends.bind_ok (show pageSize s = (.ok s.size, s) from rfl) ?_
      rcases hrun : Device.writeExact (s.store.pathOf c) (i * s.size) f.bytes s.device with ⟨e | ⟨⟩, d'⟩
      · obtain ⟨hready', j, hj, hroom⟩ := hserves.error hrun
        refine Ends.bind (Q := fun _ _ => False) (Ends.bind_ok (hattempt hrun) (Ends.of_error rfl
          ⟨hready', c, hc, i * s.size + j, ?_, hroom⟩)) fun _ _ h => h.elim
        rw [hbacked.frame_size hf] at hj
        rw [Nat.succ_mul] at hinside
        omega
      · have hperform : perform (Device.writeExact (s.store.pathOf c) (i * s.size) f.bytes) s
            = (.ok (), ⟨d', s.store⟩) := by
          rw [perform, run_bind_ok (hattempt hrun)]
          rfl
        exact Ends.bind_ok hperform (Ends.of_ok (putFrame_run c i _ _) (hserves.ok hrun))

/-- Pages are written one after the other unless the device is full. -/
lemma forM_writePage_served (pages : List (CacheId × String × ℕ)) (hs : ∀ c ∈ C, s.Backed A c)
    (hready : V.Ready s.device) (hpages : ∀ e ∈ pages, e.1 ∈ C ∧ e.2.1 = s.store.pathOf e.1) :
    Ends (pages.forM fun e => writePage e.1 e.2.1 e.2.2) s (fun _ s' => V.Ready s'.device)
      (fun _ s' => V.Ready s'.device ∧ s.Full V C) := by
  induction pages generalizing s with
  | nil => exact hready
  | cons e rest ih =>
      obtain ⟨c, path, i⟩ := e
      obtain ⟨hc, rfl⟩ : c ∈ C ∧ path = s.store.pathOf c := hpages _ List.mem_cons_self
      refine Ends.bind (((writePage_saves hs hc i).and
        (writePage_served (hs c hc) hc hready i)).mono_error fun _ _ h => h.2) ?_
      rintro - s₁ ⟨⟨h₁, -⟩, hready₁⟩
      refine (ih h₁.backed hready₁ fun e he => ?_).mono_error fun _ _ h => ⟨h.1, h₁.full h.2⟩
      rw [h₁.pathOf]
      exact hpages e (List.mem_cons_of_mem _ he)

/-- A flush comes to its end where the device serves, unless it is full. -/
lemma flushIn_served (hs : ∀ c ∈ C, s.Backed A c) (hC : ∀ c, c ∈ s.store.caches → c ∈ C)
    (hhonest : A.Honest s.device) (hready : V.Ready s.device) (o : Schedule) :
    Ends (flushIn o) s (fun _ s' => V.Ready s'.device)
      (fun _ s' => V.Ready s'.device ∧ s.Full V C) := by
  refine Ends.bind_ok (run_get s) ?_
  have hpages := path_of_pagesInMemory hs hC o
  refine Ends.bind (((forM_writePage_saves _ hhonest hs hpages).and
    (forM_writePage_served _ hs hready hpages)).mono_error fun _ _ h => h.2) ?_
  rintro - s₁ ⟨⟨h₁, -⟩, hready₁⟩
  refine (ends_forM (I := fun s' => s₁.Asks A s' ∧ V.Ready s'.device) (F := fun _ _ => False)
    _ (fun path hpath s' h => ?_) ⟨.refl h₁.honest, hready₁⟩).mono (fun _ _ h => h.2) fun _ _ h => h.elim
  -- the files that are made durable are those of open caches
  obtain ⟨⟨c, k⟩, hk, rfl⟩ := List.mem_map.mp ((o.files_perm _).mem_iff.mp hpath)
  have hk := Std.TreeMap.mem_toList_iff_getElem?_eq_some.mp hk
  have hin : c ∈ C := hC c (Std.TreeMap.mem_iff_isSome_getElem?.mpr (by rw [hk]; rfl))
  have hpresent : A.Present s'.device k.path := by
    rw [(hs c hin).path hk]
    exact h.1.stays.present (h₁.present ((hs c hin).present hk))
  exact (perform_served (A.sync_calm k.path _ h.1.stays.honest)
    (V.sync_serves k.path _ h.2 hpresent)).mono_ok fun _ _ h' => ⟨h.1.trans h'.1, h'.2.1⟩

/-- Where there is room everywhere, a flush comes to its end. -/
lemma flushIn_of_room (hs : ∀ c ∈ C, s.Backed A c) (hC : ∀ c, c ∈ s.store.caches → c ∈ C)
    (hhonest : A.Honest s.device) (hready : V.Ready s.device) (hroom : ∀ pos, V.Room pos)
    (o : Schedule) : ∃ s', flushIn o s = (.ok (), s') := by
  rcases hrun : flushIn o s with ⟨e | ⟨⟩, s'⟩
  · obtain ⟨-, c, -, pos, -, hfull⟩ := (flushIn_served hs hC hhonest hready o).error hrun
    exact absurd (hroom pos) hfull
  · exact ⟨s', rfl⟩

/-- A disk in memory is never full. -/
lemma flushIn_memoryDisk {s : Session MemoryDisk} (hs : ∀ c ∈ C, s.Backed MemoryDisk.account c)
    (hC : ∀ c, c ∈ s.store.caches → c ∈ C) (o : Schedule) : ∃ s', flushIn o s = (.ok (), s') :=
  flushIn_of_room (V := MemoryDisk.service "" ∅) hs hC trivial trivial (fun _ => trivial) o

end Flush

/-! ### Looking at pages -/

/-- How many pages a cache has, and what is on one of them. -/
def look (c : CacheId) (id : PageId) : SessionM δ (ℕ × Page) := do
  return (← pageCount c, ← view c id pure)

/-- A page that the array has is seen as it is. -/
lemma look_served (hs : s.Backed A c) (h : s.Served V c) (hhas : (s.array A c).Has id.index) :
    Ends (look c id) s (fun r s' => r = ((s.array A c).count, (s.array A c).page id.index) ∧
      s.Turns A c (s.array A c) s' ∧ V.Ready s'.device) (fun _ _ => False) := by
  refine Ends.bind (Q := fun n s₁ => n = (s.array A c).count ∧ s.Turns A c (s.array A c) s₁ ∧
    V.Ready s₁.device) ?_ ?_
  · refine (((cacheFile_turns hs).and (cacheFile_served hs h)).mono_error fun _ _ h => h.2.elim).bind ?_
    rintro k s₁ ⟨⟨hk, h₁⟩, hready₁⟩
    refine Ends.of_ok rfl ⟨?_, h₁, hready₁⟩
    rw [← h₁.array, array_open hk, CacheFile.array]
  · rintro _ s₁ ⟨rfl, h₁, hready₁⟩
    have hserved := (view_turns h₁.backed id pure).and
      (view_served h₁.backed (h.turns hready₁ h₁) id pure)
    refine (hserved.mono_error ?_).bind ?_
    · rintro e s₂ ⟨⟨(hio | ⟨hnot, -⟩) | ⟨-, he⟩, -⟩, hserved, -⟩
      · obtain ⟨_, he⟩ := hserved hio
        cases he
      · exact hnot (h₁.array.symm ▸ hhas)
      · cases he
    · rintro p s₂ ⟨⟨-, hp, h₂⟩, hready₂⟩
      rw [h₁.array] at hp
      exact Ends.of_ok rfl ⟨by rw [Except.ok.inj hp], h₁.stay h₂, hready₂⟩

/-- Pages of several caches are looked at one after the other. -/
lemma looks_served {C : Set CacheId} (hs : ∀ c ∈ C, s.Backed A c) (h : ∀ c ∈ C, s.Served V c)
    (pages : List (CacheId × PageId))
    (hpages : ∀ e ∈ pages, e.1 ∈ C ∧ (s.array A e.1).Has e.2.index) :
    Ends (pages.mapM fun e => look e.1 e.2) s
      (fun rs _ => rs = pages.map fun e => ((s.array A e.1).count, (s.array A e.1).page e.2.index))
      (fun _ _ => False) := by
  induction pages generalizing s with
  | nil => exact rfl
  | cons e rest ih =>
      obtain ⟨hc, hhas⟩ := hpages e List.mem_cons_self
      rw [List.mapM_cons]
      refine (look_served (hs _ hc) (h _ hc) hhas).bind ?_
      rintro _ s₁ ⟨rfl, h₁, hready₁⟩
      have harrays : ∀ c, s₁.array A c = s.array A c := fun c => by
        by_cases hce : c = e.1
        · rw [hce, h₁.array]
        · exact (h₁.other hce).array
      have hbacked : ∀ c ∈ C, s₁.Backed A c := fun c hin => by
        by_cases hce : c = e.1
        · exact hce ▸ h₁.backed
        · exact (h₁.other hce).backed (hs c hin)
      refine (ih hbacked (fun c hin => (h c hin).turns hready₁ h₁) fun e he => ?_).bind ?_
      · rw [harrays]
        exact hpages e (List.mem_cons_of_mem _ he)
      · rintro _ s₂ rfl
        refine Ends.of_ok rfl ?_
        simp only [List.map_cons, harrays]

end Session

end PageCatalog
