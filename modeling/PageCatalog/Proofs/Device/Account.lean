import Mathlib.Tactic
import PageCatalog.Device.Transfer
import PageCatalog.Proofs.Computation
import PageCatalog.Proofs.Device.Content

/-!
What can be relied on of a device.

A device may refuse any call, move fewer bytes than it is offered and be interrupted, as
long as it tells no lies: a size is the size of the file, bytes that were read stand in the
file, and a write puts the bytes there that it says it moved. Nothing but a write changes a
file, and a write that is refused does not.

* `Device.Files`: the files of a device; `Files.Stays`, `Files.Writes`, `Files.Calm`.
* `Device.Account`: a device whose calls keep to its files.
* `Account.readExact_calm`, `Account.writeExact_ends`: the same for whole transfers.
-/

namespace PageCatalog

namespace Device

/-- The files of a device, as they are in each of its states. -/
structure Files (δ : Type) where
  /-- The bytes of the file at a path. There are none if the file is missing. -/
  bytes : δ → (path : String) → Bytes
  /-- There is a file at a path. -/
  Present : δ → (path : String) → Prop
  /-- The states in which no size is given falsely. -/
  Honest : δ → Prop
  /-- Two paths that do not lead to the same file. -/
  Apart : String → String → Prop

namespace Files

variable {δ α : Type} (F : Files δ)

/-- No file has changed. -/
structure Stays (d d' : δ) : Prop where
  honest : F.Honest d'
  bytes : F.bytes d' = F.bytes d
  present : ∀ {path}, F.Present d path → F.Present d' path

/-- Some bytes were written to the file at a path, and no other file has changed. -/
structure Writes (d : δ) (path : String) (pos : ℕ) (bs : Bytes) (d' : δ) : Prop where
  honest : F.Honest d'
  written : F.bytes d' path = (F.bytes d path).overwrite pos bs
  others : ∀ path', F.Apart path path' → F.bytes d' path' = F.bytes d path'
  present : ∀ {path}, F.Present d path → F.Present d' path

/-- A call that changes no file, whether or not it answers. Its answer is as the files
are. -/
def Calm (call : DeviceM δ α) (Q : (String → Bytes) → α → Prop) : Prop :=
  ∀ d, F.Honest d → Ends call d (fun a d' => F.Stays d d' ∧ Q (F.bytes d) a) fun _ d' => F.Stays d d'

variable {F} {d d' d'' : δ} {path : String} {pos : ℕ} {a b : Bytes}

/-- Nothing has happened to the files. -/
lemma Stays.refl (h : F.Honest d) : F.Stays d d := ⟨h, rfl, fun h => h⟩

/-- Two calls that leave the files. -/
lemma Stays.trans (h : F.Stays d d') (h' : F.Stays d' d'') : F.Stays d d'' :=
  ⟨h'.honest, h'.bytes.trans h.bytes, fun hpath => h'.present (h.present hpath)⟩

/-- A write after a call that leaves the files. -/
lemma Stays.writes (h : F.Stays d d') (h' : F.Writes d' path pos a d'') :
    F.Writes d path pos a d'' :=
  ⟨h'.honest, by rw [h'.written, h.bytes], fun path' hpath => by rw [h'.others path' hpath, h.bytes],
    fun hpath => h'.present (h.present hpath)⟩

/-- Nothing was written. -/
lemma Stays.writes_nil (h : F.Stays d d') : F.Writes d path pos [] d' :=
  ⟨h.honest, by rw [h.bytes, Bytes.overwrite_nil], fun _ _ => by rw [h.bytes], h.present⟩

/-- Two writes, one behind the other, are one. -/
lemma Writes.append (h : F.Writes d path pos a d') (h' : F.Writes d' path (pos + a.length) b d'') :
    F.Writes d path pos (a ++ b) d'' :=
  ⟨h'.honest, by rw [h'.written, h.written, Bytes.overwrite_overwrite],
    fun path' hpath => by rw [h'.others path' hpath, h.others path' hpath],
    fun hpath => h'.present (h.present hpath)⟩

/-- A calm call made again and again is calm. -/
lemma Calm.persist {call : DeviceM δ α} {Q : (String → Bytes) → α → Prop} (h : F.Calm call Q) (n : ℕ) :
    F.Calm (persist call n) Q := fun d hd =>
  persist_ends (I := F.Stays d) (fun _ hstays => (h _ hstays.honest).mono
    (fun _ _ h' => ⟨hstays.trans h'.1, by rw [← hstays.bytes]; exact h'.2⟩)
    fun _ _ h' => hstays.trans h') (fun _ _ h => h) n (.refl hd)

end Files

/-! ### What reads keep -/

section Keeps

variable {δ α : Type} {P : δ → Prop} {d : δ}

/-- What a call keeps, it keeps when it is made again and again. -/
lemma persist_keeps {call : DeviceM δ α} (hcall : ∀ d, P d → P (call d).2) (n : ℕ) (hd : P d) :
    P (persist call n d).2 :=
  Ends.result (P := fun _ d' => P d') (persist_ends (I := P) (Q := fun _ d' => P d')
    (R := fun _ d' => P d') (fun d hd => Ends.of_result (P := fun _ d' => P d') (hcall d hd))
    (fun _ _ h => h) n hd)

/-- What a read call keeps, a whole read keeps. -/
lemma readRounds_keeps {readAt : ℕ → ℕ → DeviceM δ ByteArray} (stalls : δ → ℕ)
    (hread : ∀ pos len d, P d → P (readAt pos (len + 1) d).2) (rounds pos left : ℕ) (got : ByteArray)
    (hd : P d) : P (Transfer.readRounds readAt stalls rounds pos left got d).2 := by
  induction rounds generalizing pos left got d with
  | zero => cases left <;> exact hd
  | succ rounds ih =>
      cases left with
      | zero => exact hd
      | succ left =>
          have hd' := persist_keeps (hread pos left) (stalls d) hd
          rw [Transfer.readRounds]
          split
          · rename_i hrun
            rwa [hrun] at hd'
          · rename_i hrun
            rw [hrun] at hd'
            split
            · exact hd'
            · exact ih _ _ _ hd'

/-- A read of an exact number of bytes keeps what each of its reads keeps. None of them is a read
of nothing. -/
lemma readExact_keeps [Device δ] {path : String}
    (hread : ∀ pos len d, P d → P (Device.readAt path pos (len + 1) d).2) (pos len : ℕ) (hd : P d) :
    P (readExact path pos len d).2 := by
  have hrounds := readRounds_keeps stalls hread len pos len .empty hd
  rw [readExact]
  split
  · rename_i hrun
    rwa [hrun] at hrounds
  · rename_i hrun
    rwa [hrun] at hrounds

end Keeps

/-- The files of a device, and what its calls have to do with them. Any path may be asked for.
Sizes and writes are accounted for where a file has been attached: what a folder measures is
nobody's bytes. -/
structure Account (δ : Type) [Device δ] extends Files δ where
  makeDirs_calm : ∀ path, toFiles.Calm (Device.makeDirs path) fun _ _ => True
  length_calm : ∀ path, toFiles.Calm (Device.length path) fun _ _ => True
  attach_calm : ∀ path, toFiles.Calm (Device.attach path) fun _ _ => True
  /-- What was attached is there. -/
  attach_present : ∀ {path d d'}, Honest d → Device.attach path d = (.ok (), d') → Present d' path
  size_calm : ∀ path, toFiles.Calm (Device.size path) fun _ _ => True
  /-- The size of an attached file is the number of its bytes. -/
  size_eq : ∀ {path d n d'}, Honest d → Present d path → Device.size path d = (.ok n, d') →
    n = (bytes d path).length
  /-- What was read stands in the file. -/
  readAt_calm : ∀ path pos len, toFiles.Calm (Device.readAt path pos len) fun files part =>
    part.data.toList <+: ((files path).drop pos).take len
  /-- What was written to an attached file stands there. -/
  writeAt_ends : ∀ path pos part d, Honest d → Present d path → Ends (Device.writeAt path pos part) d
    (fun n d' => n ≤ part.size ∧ toFiles.Writes d path pos (part.data.toList.take n) d')
    fun _ d' => toFiles.Stays d d'
  sync_calm : ∀ path, toFiles.Calm (Device.sync path) fun _ _ => True

namespace Account

variable {δ : Type} [Device δ] (A : Account δ) {d : δ}

/-- The size of an attached file is asked for. -/
lemma size_ends {path : String} (hd : A.Honest d) (hpath : A.Present d path) :
    Ends (Device.size path) d (fun n d' => A.Stays d d' ∧ n = (A.bytes d path).length)
      fun _ d' => A.Stays d d' := by
  have hend := A.size_calm path d hd
  rcases hrun : Device.size path d with ⟨e | n, d'⟩
  · exact Ends.of_error hrun (hend.error hrun)
  · exact Ends.of_ok hrun ⟨(hend.ok hrun).1, A.size_eq hd hpath hrun⟩

/-! ### Reading -/

/-- The rounds of a read put together what stands in the file. -/
lemma readRounds_stays (path : String) (rounds pos left : ℕ) (got : ByteArray) (hd : A.Honest d) :
    A.Stays d (Transfer.readRounds (readAt path) stalls rounds pos left got d).2 ∧
      ((Transfer.readRounds (readAt path) stalls rounds pos left got d).1.1 = .ok () →
        (Transfer.readRounds (readAt path) stalls rounds pos left got d).1.2.data.toList
          = got.data.toList ++ ((A.bytes d path).drop pos).take left) := by
  induction rounds generalizing pos left got d with
  | zero =>
      cases left with
      | zero => exact ⟨.refl hd, fun _ => by simp [Transfer.readRounds]⟩
      | succ left => exact ⟨.refl hd, fun h => by cases h⟩
  | succ rounds ih =>
      cases left with
      | zero => exact ⟨.refl hd, fun _ => by simp [Transfer.readRounds]⟩
      | succ left =>
          rw [Transfer.readRounds]
          have hend := (A.readAt_calm path pos (left + 1)).persist (stalls d) d hd
          rcases hrun : persist (readAt path pos (left + 1)) (stalls d) d with ⟨e | part, d'⟩
          · exact ⟨hend.error hrun, fun h => by cases h⟩
          · obtain ⟨hstays, hprefix⟩ := hend.ok hrun
            by_cases hempty : part.size = 0
            · simp only [if_pos hempty]
              exact ⟨hstays, fun h => by cases h⟩
            · simp only [if_neg hempty]
              obtain ⟨hrest, hgot⟩ := ih (pos + part.size) (left + 1 - part.size) (got ++ part)
                hstays.honest
              refine ⟨hstays.trans hrest, fun h => ?_⟩
              have hbytes := hgot h
              rw [hstays.bytes] at hbytes
              -- what was read is the beginning of what was asked for
              have hsize : part.size = part.data.toList.length := by simp
              have hlen := hprefix.length_le
              rw [List.length_take, List.length_drop, ← hsize] at hlen
              have htake := List.prefix_iff_eq_take.mp hprefix
              rw [List.take_take, ← hsize, min_eq_left (by omega)] at htake
              rw [hbytes, ByteArray.data_append, Array.toList_append, List.append_assoc, htake,
                ← List.drop_drop]
              conv_rhs => rw [show left + 1 = part.size + (left + 1 - part.size) by omega, List.take_add]

/-- A read of an exact number of bytes that answers gives those of the file. -/
lemma readExact_calm (path : String) (pos len : ℕ) :
    A.Calm (readExact path pos len) fun files part =>
      part.data.toList = ((files path).drop pos).take len := by
  intro d hd
  obtain ⟨hstays, hgot⟩ := A.readRounds_stays path len pos len .empty hd
  rcases hrun : Transfer.readRounds (readAt path) stalls len pos len .empty d with ⟨⟨e | ⟨⟩, got⟩, d'⟩
  · rw [hrun] at hstays
    exact Ends.of_error (e := e) (t := d') (by rw [readExact, hrun]) hstays
  · rw [hrun] at hstays hgot
    refine Ends.of_ok (a := got) (t := d') (by rw [readExact, hrun]) ⟨hstays, ?_⟩
    simpa using hgot rfl

/-! ### Writing -/

/-- A write that is offered a beginning of the bytes only. -/
lemma writeAt_extract {path : String} (pos : ℕ) {part : ByteArray} {n : ℕ} (hn : n ≤ part.size)
    (hd : A.Honest d) (hpath : A.Present d path) :
    Ends (Device.writeAt path pos (part.extract 0 n)) d
      (fun m d' => m ≤ part.size ∧ A.Writes d path pos (part.data.toList.take m) d')
      fun _ d' => A.Stays d d' := by
  refine (A.writeAt_ends path pos (part.extract 0 n) d hd hpath).mono_ok ?_
  rintro m d' ⟨hm, hwrites⟩
  have hsize : (part.extract 0 n).size = n := by
    rw [ByteArray.size_extract]
    omega
  rw [hsize] at hm
  have hpart : (part.extract 0 n).data.toList.take m = part.data.toList.take m := by
    rw [ByteArray.data_extract, Array.toList_extract, List.extract_eq_take_drop, List.take_take]
    simp [min_eq_left hm]
  exact ⟨hm.trans hn, hpart ▸ hwrites⟩

/-- The rounds of a write put a beginning of what is left into the file, and all of it if
they end well. -/
lemma writeRounds_writes (path : String) (bytes : ByteArray) (rounds pos done : ℕ)
    (hdone : done ≤ bytes.size) (hd : A.Honest d) (hpath : A.Present d path) :
    ∃ n, done + n ≤ bytes.size ∧
      A.Writes d path pos ((bytes.data.toList.drop done).take n)
        (Transfer.writeRounds (writeAt path) stalls bytes rounds pos done d).2 ∧
      ((Transfer.writeRounds (writeAt path) stalls bytes rounds pos done d).1.1 = .ok () →
        done + n = bytes.size) := by
  induction rounds generalizing pos done d with
  | zero =>
      rw [Transfer.writeRounds]
      split
      · exact ⟨0, by omega, (Files.Stays.refl hd).writes_nil, fun h => by cases h⟩
      · exact ⟨0, by omega, (Files.Stays.refl hd).writes_nil, fun _ => by omega⟩
  | succ rounds ih =>
      rw [Transfer.writeRounds]
      split
      swap
      · exact ⟨0, by omega, (Files.Stays.refl hd).writes_nil, fun _ => by omega⟩
      have hpart : (bytes.extract done bytes.size).data.toList = bytes.data.toList.drop done := by
        rw [ByteArray.data_extract, Array.toList_extract, List.extract_eq_take_drop]
        exact List.take_of_length_le (by simp)
      have hsize : (bytes.extract done bytes.size).size = bytes.size - done := by
        rw [ByteArray.size_extract]
        omega
      have hend := persist_ends (I := A.Stays d) (R := fun _ d' => A.Stays d d') (Q := fun n d' =>
          n ≤ bytes.size - done ∧ A.Writes d path pos ((bytes.data.toList.drop done).take n) d')
        (fun d' hstays => by
          have hcall := A.writeAt_ends path pos (bytes.extract done bytes.size) d' hstays.honest
            (hstays.present hpath)
          rw [hpart, hsize] at hcall
          exact hcall.mono (fun _ _ h => ⟨h.1, hstays.writes h.2⟩) fun _ _ h => hstays.trans h)
        (fun _ _ h => h) (stalls d) (.refl hd)
      rcases hrun : persist (writeAt path pos (bytes.extract done bytes.size)) (stalls d) d
        with ⟨e | n, d'⟩
      · exact ⟨0, by omega, (hend.error hrun).writes_nil, fun h => by cases h⟩
      · obtain ⟨hn, hwrites⟩ := hend.ok hrun
        by_cases hnone : n = 0
        · simp only [if_pos hnone]
          exact ⟨n, by omega, hwrites, fun h => by cases h⟩
        · simp only [if_neg hnone]
          obtain ⟨m, hm, hrest, hall⟩ := ih (pos + n) (done + n) (by omega) hwrites.honest
            (hwrites.present hpath)
          refine ⟨n + m, by omega, ?_, fun h => by have := hall h; omega⟩
          have hlen : ((bytes.data.toList.drop done).take n).length = n := by
            simp
            omega
          have happend := hwrites.append (a := (bytes.data.toList.drop done).take n) (b :=
            (bytes.data.toList.drop (done + n)).take m) (by rwa [hlen])
          rwa [List.take_add, List.drop_drop]

/-- A write of an exact number of bytes puts them into the file; one that is broken off has
put a beginning of them there. -/
lemma writeExact_ends (path : String) (pos : ℕ) (bytes : ByteArray) (hd : A.Honest d)
    (hpath : A.Present d path) :
    Ends (writeExact path pos bytes) d
      (fun _ d' => A.Writes d path pos bytes.data.toList d')
      (fun _ d' => ∃ n ≤ bytes.size, A.Writes d path pos (bytes.data.toList.take n) d') := by
  obtain ⟨n, hn, hwrites, hall⟩ := A.writeRounds_writes path bytes bytes.size pos 0 (Nat.zero_le _) hd hpath
  rcases hrun : Transfer.writeRounds (writeAt path) stalls bytes bytes.size pos 0 d
    with ⟨⟨e | ⟨⟩, done⟩, d'⟩
  · rw [hrun] at hwrites
    exact Ends.of_error (e := e) (t := d') (by rw [writeExact, hrun]) ⟨n, by omega, by simpa using hwrites⟩
  · rw [hrun] at hwrites hall
    refine Ends.of_ok (a := ()) (t := d') (by rw [writeExact, hrun]) ?_
    have hlen := hall rfl
    rwa [List.drop_zero, List.take_of_length_le (by simp; omega)] at hwrites

end Account

end Device

end PageCatalog
