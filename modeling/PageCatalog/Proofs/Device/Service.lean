import Mathlib.Tactic
import PageCatalog.Proofs.Device.Disks

/-!
Devices that serve.

A device that serves the files of a store refuses nothing that a session needs to open the
folder of the store, and to read and write these files. What else is asked of it may be
refused, but leaves it ready; and it refuses to write where it is full.

* `Device.Serves`: a call that is not refused.
* `Account.Service`: a device that serves; `Service.readExact_serves`,
  `Service.writeExact_serves`.
* `MemoryDisk.service`: a disk in memory.
* `Faulty.service`: a device that has no faults any more.
-/

namespace PageCatalog

namespace Device

variable {δ α : Type}

/-- A call is not refused in the states that are ready, and leaves such a state. -/
def Serves (Ready : δ → Prop) (call : DeviceM δ α) : Prop :=
  ∀ d, Ready d → Ends call d (fun _ d' => Ready d') fun _ _ => False

namespace Account

variable [Device δ] {A : Account δ} {folder : String} {own : Set String}

/-- A device that serves a folder and files of one's own. A path that is nobody's may be asked
for: it may name a folder, say, and be refused. -/
structure Service (A : Account δ) (folder : String) (own : Set String) where
  Ready : δ → Prop
  /-- The positions in a file where the device is not full. -/
  Room : ℕ → Prop
  makeDirs_serves : Serves Ready (Device.makeDirs folder)
  attach_serves : ∀ path ∈ own, Serves Ready (Device.attach path)
  length_serves : ∀ path d, Ready d → A.Present d path →
    Ends (Device.length path) d (fun _ d' => Ready d') fun _ _ => False
  size_serves : ∀ path d, Ready d → Ends (Device.size path) d (fun _ d' => Ready d')
    fun _ d' => Ready d' ∧ ¬ A.Present d path
  /-- A read inside a file that was attached moves a byte at least. -/
  readAt_serves : ∀ path pos len d, Ready d → 0 < len → Ends (Device.readAt path pos len) d
    (fun part d' => Ready d' ∧
      (A.Present d path → pos + len ≤ (A.bytes d path).length → 0 < part.size))
    fun _ d' => Ready d' ∧ ¬ (A.Present d path ∧ pos + len ≤ (A.bytes d path).length)
  /-- A write to such a file moves a byte at least, unless it starts where there is no room. -/
  writeAt_serves : ∀ path pos part d, Ready d → A.Present d path → 0 < part.size →
    Ends (Device.writeAt path pos part) d (fun n d' => Ready d' ∧ (Room pos → 0 < n))
      fun _ d' => Ready d' ∧ ¬ Room pos
  sync_serves : ∀ path d, Ready d → A.Present d path →
    Ends (Device.sync path) d (fun _ d' => Ready d') fun _ _ => False

namespace Service

variable (V : A.Service folder own) {d : δ} {path : String}

/-! ### Reading -/

/-- Any file may be read, whether or not there is an answer. -/
lemma readExact_ready (path : String) (pos len : ℕ) (hready : V.Ready d) :
    V.Ready (readExact path pos len d).2 :=
  readExact_keeps (P := V.Ready) (fun pos len d hd => Ends.result (P := fun _ d' => V.Ready d')
    ((V.readAt_serves path pos (len + 1) d hd (Nat.succ_pos len)).mono (fun _ _ h => h.1)
      fun _ _ h => h.1)) pos len hready

/-- A read inside an attached file is not refused, not even now and then. -/
lemma persist_readAt_serves (hd : A.Honest d) (hready : V.Ready d) (hpath : A.Present d path)
    {pos len : ℕ} (hlen : 0 < len) (hinside : pos + len ≤ (A.bytes d path).length) (n : ℕ) :
    Ends (persist (readAt path pos len) n) d
      (fun part d' => V.Ready d' ∧ A.Stays d d' ∧ 0 < part.size ∧ part.size ≤ len) fun _ _ => False := by
  refine persist_ends (I := fun d' => V.Ready d' ∧ A.Stays d d') (fun d' ⟨hready', hstays⟩ => ?_)
    (fun _ _ h => h.elim) n ⟨hready, .refl hd⟩
  refine ((V.readAt_serves path pos len d' hready' hlen).and
    (A.readAt_calm path pos len d' hstays.honest)).mono ?_ ?_
  · rintro part d'' ⟨⟨hready'', hpos⟩, hstays', hprefix⟩
    have hle := hprefix.length_le
    rw [List.length_take, Array.length_toList, ByteArray.size_data] at hle
    exact ⟨hready'', hstays.trans hstays', hpos (hstays.present hpath) (by rwa [hstays.bytes]), by omega⟩
  · rintro e d'' ⟨⟨-, hnot⟩, -⟩
    exact hnot ⟨hstays.present hpath, by rwa [hstays.bytes]⟩

/-- The rounds of a read inside the file come to its end. -/
lemma readRounds_serves (rounds pos left : ℕ) (got : ByteArray) (hd : A.Honest d) (hready : V.Ready d)
    (hpath : A.Present d path) (hrounds : left ≤ rounds)
    (hinside : pos + left ≤ (A.bytes d path).length) :
    (Transfer.readRounds (readAt path) stalls rounds pos left got d).1.1 = .ok () ∧
      V.Ready (Transfer.readRounds (readAt path) stalls rounds pos left got d).2 := by
  induction rounds generalizing pos left got d with
  | zero =>
      obtain rfl : left = 0 := Nat.le_zero.mp hrounds
      exact ⟨rfl, hready⟩
  | succ rounds ih =>
      cases left with
      | zero => exact ⟨rfl, hready⟩
      | succ left =>
          rw [Transfer.readRounds]
          have hserved := V.persist_readAt_serves hd hready hpath (Nat.succ_pos left) hinside (stalls d)
          rcases hrun : persist (readAt path pos (left + 1)) (stalls d) d with ⟨e | part, d'⟩
          · exact (hserved.error hrun).elim
          · obtain ⟨hready', hstays, hpos, hlen⟩ := hserved.ok hrun
            simp only [if_neg hpos.ne']
            exact ih _ _ _ hstays.honest hready' (hstays.present hpath) (by omega)
              (by rw [hstays.bytes]; omega)

/-- A read of an exact number of bytes inside the file is not refused. -/
lemma readExact_serves {pos len : ℕ} (hd : A.Honest d) (hready : V.Ready d)
    (hpath : A.Present d path) (hinside : pos + len ≤ (A.bytes d path).length) :
    Ends (readExact path pos len) d (fun _ d' => V.Ready d') fun _ _ => False := by
  obtain ⟨hok, hready'⟩ := V.readRounds_serves len pos len .empty hd hready hpath le_rfl hinside
  rcases hrun : Transfer.readRounds (readAt path) stalls len pos len .empty d with ⟨⟨e | ⟨⟩, got⟩, d'⟩
  · rw [hrun] at hok
    cases hok
  · rw [hrun] at hready'
    exact Ends.of_ok (a := got) (t := d') (by rw [readExact, hrun]) hready'

/-! ### Writing -/

/-- A write to an attached file is refused only where the device is full. -/
lemma persist_writeAt_serves (hd : A.Honest d) (hready : V.Ready d) (hpath : A.Present d path)
    (pos : ℕ) {part : ByteArray} (hpart : 0 < part.size) (n : ℕ) :
    Ends (persist (writeAt path pos part) n) d
      (fun n d' => V.Ready d' ∧ A.Honest d' ∧ A.Present d' path ∧ (V.Room pos → 0 < n))
      fun _ d' => V.Ready d' ∧ A.Stays d d' ∧ ¬ V.Room pos := by
  refine persist_ends (I := fun d' => V.Ready d' ∧ A.Stays d d') (fun d' ⟨hready', hstays⟩ => ?_)
    (fun _ _ h => ⟨h.1, h.2.1⟩) n ⟨hready, .refl hd⟩
  exact ((V.writeAt_serves path pos part d' hready' (hstays.present hpath) hpart).and
    (A.writeAt_ends path pos part d' hstays.honest (hstays.present hpath))).mono
    (fun _ _ h => ⟨h.1.1, h.2.2.honest, h.2.2.present (hstays.present hpath), h.1.2⟩)
    fun _ _ h => ⟨h.1.1, hstays.trans h.2, h.1.2⟩

/-- The rounds of a write come to its end, or to a place where the device is full. -/
lemma writeRounds_serves (bytes : ByteArray) (rounds pos done : ℕ) (hd : A.Honest d)
    (hready : V.Ready d) (hpath : A.Present d path) (hrounds : bytes.size ≤ done + rounds) :
    V.Ready (Transfer.writeRounds (writeAt path) stalls bytes rounds pos done d).2 ∧
      ((Transfer.writeRounds (writeAt path) stalls bytes rounds pos done d).1.1 = .ok () ∨
        ∃ i < bytes.size - done, ¬ V.Room (pos + i)) := by
  induction rounds generalizing pos done d with
  | zero =>
      rw [Transfer.writeRounds, if_neg (by omega)]
      exact ⟨hready, .inl rfl⟩
  | succ rounds ih =>
      rw [Transfer.writeRounds]
      split
      swap
      · exact ⟨hready, .inl rfl⟩
      have hsize : (bytes.extract done bytes.size).size = bytes.size - done := by
        rw [ByteArray.size_extract]
        omega
      have hserved := V.persist_writeAt_serves hd hready hpath pos
        (show 0 < (bytes.extract done bytes.size).size by omega) (stalls d)
      rcases hrun : persist (writeAt path pos (bytes.extract done bytes.size)) (stalls d) d
        with ⟨e | n, d'⟩
      · obtain ⟨hready', -, hfull⟩ := hserved.error hrun
        exact ⟨hready', .inr ⟨0, by omega, hfull⟩⟩
      · obtain ⟨hready', hd', hpath', hpos⟩ := hserved.ok hrun
        by_cases hnone : n = 0
        · simp only [if_pos hnone]
          exact ⟨hready', .inr ⟨0, by omega, fun hroom => (hpos hroom).ne' hnone⟩⟩
        · simp only [if_neg hnone]
          obtain ⟨hready'', hend⟩ := ih (pos + n) (done + n) hd' hready' hpath' (by omega)
          refine ⟨hready'', hend.imp_right ?_⟩
          rintro ⟨i, hi, hfull⟩
          exact ⟨n + i, by omega, by rwa [← Nat.add_assoc]⟩

/-- A write of an exact number of bytes is refused only if the device is full somewhere in
their place. -/
lemma writeExact_serves (pos : ℕ) (bytes : ByteArray) (hd : A.Honest d) (hready : V.Ready d)
    (hpath : A.Present d path) :
    Ends (writeExact path pos bytes) d (fun _ d' => V.Ready d')
      fun _ d' => V.Ready d' ∧ ∃ i < bytes.size, ¬ V.Room (pos + i) := by
  obtain ⟨hready', hend⟩ := V.writeRounds_serves bytes bytes.size pos 0 hd hready hpath (by omega)
  rcases hrun : Transfer.writeRounds (writeAt path) stalls bytes bytes.size pos 0 d
    with ⟨⟨e | ⟨⟩, done⟩, d'⟩
  · rw [hrun] at hready' hend
    exact Ends.of_error (e := e) (t := d') (by rw [writeExact, hrun])
      ⟨hready', hend.resolve_left fun h => by cases h⟩
  · rw [hrun] at hready'
    exact Ends.of_ok (a := ()) (t := d') (by rw [writeExact, hrun]) hready'

end Service

end Account

end Device

/-! ### Disks that serve -/

namespace MemoryDisk

variable {α : Type}

/-- A call that always answers serves. -/
lemma serves_of_answers {call : DeviceM MemoryDisk α} (h : ∀ d, (call d).1.isOk = true) :
    Device.Serves (fun _ => True) call := fun d _ => by
  obtain ⟨a, hrun⟩ := run_of_isOk (h d)
  exact Ends.of_ok hrun trivial

lemma length_serves (path : String) (d : MemoryDisk) (hpath : account.Present d path) :
    Ends (Device.length path) d (fun _ _ => True) fun _ _ => False := by
  obtain ⟨file, hfile⟩ := Option.isSome_iff_exists.mp hpath
  exact Ends.of_ok (a := file.size) (t := d) (by simp only [Device.length, hfile]) trivial

lemma readAt_serves (path : String) (pos len : ℕ) (d : MemoryDisk) (hlen : 0 < len) :
    Ends (Device.readAt path pos len) d
      (fun part _ => pos + len ≤ (account.bytes d path).length → 0 < part.size) fun _ _ => False := by
  refine Ends.of_ok rfl fun hinside => ?_
  have hsize : (account.bytes d path).length = ((d.content? path).getD .empty).size := by
    change (fileBytes d path).length = _
    rw [fileBytes, Array.length_toList, ByteArray.size_data]
  rw [excerpt, ByteArray.size_extract]
  omega

/-- A disk in memory serves whatever is asked of it, and is never full. -/
def service (folder : String) (own : Set String) : account.Service folder own where
  Ready _ := True
  Room _ := True
  makeDirs_serves := serves_of_answers fun _ => rfl
  attach_serves _ _ := serves_of_answers fun _ => rfl
  length_serves path d _ := length_serves path d
  size_serves _ d _ := (serves_of_answers (fun _ => rfl) d trivial).mono_error fun _ _ h => h.elim
  readAt_serves path pos len d _ hlen := (readAt_serves path pos len d hlen).mono
    (fun _ _ h => ⟨trivial, fun _ => h⟩) fun _ _ h => h.elim
  writeAt_serves _ _ _ _ _ _ hpart := Ends.of_ok rfl ⟨trivial, fun _ => hpart⟩
  sync_serves _ d _ _ := serves_of_answers (fun _ => rfl) d trivial

end MemoryDisk

namespace Faulty

variable {δ α : Type}

/-- No fault is set, and the device is never full. -/
structure Sound (d : Faulty δ) : Prop where
  faults : d.faults = {}
  capacity : d.capacity = none

variable {d : Faulty δ} {Q : α → δ → Prop} {R : IoError → δ → Prop}

/-- A call that no fault keeps from being passed on. -/
lemma pass_serves {call : DeviceM (Faulty δ) α} {inner : DeviceM δ α} (d' : Faulty δ) (hd' : d'.Sound)
    (hrun : call d = pass inner d') (hend : Ends inner d'.inner Q R) :
    Ends call d (fun a d'' => d''.Sound ∧ Q a d''.inner) fun e d'' => d''.Sound ∧ R e d''.inner := by
  rcases hinner : inner d'.inner with ⟨e | a, next⟩
  · exact Ends.of_error (e := e) (t := { d' with inner := next }) (by rw [hrun, pass, hinner])
      ⟨⟨hd'.faults, hd'.capacity⟩, hend.error hinner⟩
  · exact Ends.of_ok (a := a) (t := { d' with inner := next }) (by rw [hrun, pass, hinner])
      ⟨⟨hd'.faults, hd'.capacity⟩, hend.ok hinner⟩

variable [Device δ] {A : Device.Account δ} {folder : String} {own : Set String}

omit A in
/-- A write that no fault touches is passed on as it is. -/
lemma writeAt_sound (hd : d.Sound) (path : String) (pos : ℕ) (part : ByteArray) :
    Device.writeAt path pos part d = pass (Device.writeAt path pos part)
      { d with turn := d.turn + 1, counts.writes := d.counts.writes + 1 } := by
  simp only [Device.writeAt, hd.faults, hd.capacity, transfer, Option.any_none, Bool.false_eq_true,
    if_false, ByteArray.extract_zero_size]

/-- Without faults a device serves as it does behind them. -/
def service (V : A.Service folder own) : (account A).Service folder own where
  Ready d := d.Sound ∧ V.Ready d.inner
  Room := V.Room
  makeDirs_serves d hd := (pass_serves d hd.1
    (by simp only [Device.makeDirs, hd.1.faults, Bool.false_eq_true, if_false])
    (V.makeDirs_serves d.inner hd.2)).mono_error fun _ _ h => h.2
  attach_serves path hpath d hd := (pass_serves
    { d with counts.attached := d.counts.attached + 1 } ⟨hd.1.faults, hd.1.capacity⟩
    (by simp only [Device.attach, hd.1.faults, Bool.false_eq_true, if_false])
    (V.attach_serves path hpath d.inner hd.2)).mono_error fun _ _ h => h.2
  length_serves path d hd hpath := (pass_serves d hd.1
    (by simp only [Device.length, hd.1.faults, Bool.false_eq_true, if_false])
    (V.length_serves path d.inner hd.2 hpath)).mono_error fun _ _ h => h.2
  size_serves path d hd := (pass_serves d hd.1
    (by simp only [Device.size, hd.1.faults, Bool.false_eq_true, if_false])
    (V.size_serves path d.inner hd.2)).mono_error fun _ _ h => ⟨⟨h.1, h.2.1⟩, h.2.2⟩
  readAt_serves path pos len d hd hlen := (pass_serves
    { d with turn := d.turn + 1, counts.reads := d.counts.reads + 1 }
    ⟨hd.1.faults, hd.1.capacity⟩ (by simp only [Device.readAt, hd.1.faults, transfer])
    (V.readAt_serves path pos len d.inner hd.2 hlen)).mono
      (fun _ _ h => ⟨⟨h.1, h.2.1⟩, h.2.2⟩) fun _ _ h => ⟨⟨h.1, h.2.1⟩, h.2.2⟩
  writeAt_serves path pos part d hd hpath hpart := (pass_serves
    { d with turn := d.turn + 1, counts.writes := d.counts.writes + 1 }
    ⟨hd.1.faults, hd.1.capacity⟩ (writeAt_sound hd.1 path pos part)
    (V.writeAt_serves path pos part d.inner hd.2 hpath hpart)).mono
      (fun _ _ h => ⟨⟨h.1, h.2.1⟩, h.2.2⟩) fun _ _ h => ⟨⟨h.1, h.2.1⟩, h.2.2⟩
  sync_serves path d hd hpath := (pass_serves
    { d with counts.syncs := d.counts.syncs + 1 } ⟨hd.1.faults, hd.1.capacity⟩
    (by simp only [Device.sync, hd.1.faults, Bool.false_eq_true, if_false])
    (V.sync_serves path d.inner hd.2 hpath)).mono_error fun _ _ h => h.2

end Faulty

end PageCatalog
