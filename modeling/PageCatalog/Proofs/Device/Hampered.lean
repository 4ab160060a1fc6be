import Mathlib.Tactic
import PageCatalog.Proofs.Device.Service

/-!
A device that may fail at any call.

The next calls of the device meet hitches, one call after the other: a call is passed on, or
moves fewer bytes than it was offered, or is refused. So a transfer can be broken off anywhere,
also behind some of its bytes.

* `Hitch`, `Hampered`: what a call meets, and a device whose calls do.
* `Hampered.account`: the files behind the hitches.
* `Hampered.service`: a device that meets no more of them.
* `Hampered.writeExact_torn`: a write that is broken off inside.
-/

namespace PageCatalog

/-- What a call meets. -/
inductive Hitch where
  /-- Nothing. -/
  | clear
  /-- The call is offered at most so many bytes. -/
  | short (n : ℕ)
  | refused (e : IoError)

/-- How many of `len` bytes the call is offered that meets a hitch. -/
def Hitch.offer (len : ℕ) : Hitch → Except IoError ℕ
  | clear => .ok len
  | short n => .ok (min n len)
  | refused e => .error e

lemma Hitch.offer_le {len n : ℕ} {h : Hitch} (hoffer : h.offer len = .ok n) : n ≤ len := by
  cases h with
  | clear => exact (Except.ok.inj hoffer).ge
  | short m => exact (Except.ok.inj hoffer).ge.trans (min_le_right m len)
  | refused e => cases hoffer

/-- A device whose next calls meet hitches. -/
structure Hampered (δ : Type) where
  inner : δ
  hitches : List Hitch := []

namespace Hampered

variable {δ α : Type}

/-- A call that takes the next hitch. `move n` is the call offered `n` of `len` bytes. -/
def meet (len : ℕ) (move : ℕ → DeviceM δ α) : DeviceM (Hampered δ) α := fun d =>
  match (d.hitches.headD .clear).offer len with
  | .error e => (.error e, ⟨d.inner, d.hitches.tail⟩)
  | .ok n => ((move n d.inner).1, ⟨(move n d.inner).2, d.hitches.tail⟩)

instance [Device δ] : Device (Hampered δ) where
  makeDirs path := meet 0 fun _ => Device.makeDirs path
  length path := meet 0 fun _ => Device.length path
  attach path := meet 0 fun _ => Device.attach path
  size path := meet 0 fun _ => Device.size path
  readAt path pos len := meet len fun n => Device.readAt path pos n
  writeAt path pos bytes := meet bytes.size fun n => Device.writeAt path pos (bytes.extract 0 n)
  sync path := meet 0 fun _ => Device.sync path
  -- a hitch may be an interruption, and comes up once
  stalls d := d.hitches.length + Device.stalls d.inner

variable {len : ℕ} {move : ℕ → DeviceM δ α} {d d' : Hampered δ} {Q : α → δ → Prop}
  {R : IoError → δ → Prop}

/-- A call is refused, or does what it does behind the hitches with some offer. -/
lemma meet_ends (hmove : ∀ n ≤ len, Ends (move n) d.inner Q R) (hrefuse : ∀ e, R e d.inner) :
    Ends (meet len move) d (fun a d' => Q a d'.inner) fun e d' => R e d'.inner := by
  rcases hoffer : (d.hitches.headD .clear).offer len with e | n
  · exact Ends.of_error (t := ⟨d.inner, d.hitches.tail⟩) (by rw [meet, hoffer]) (hrefuse e)
  · have hend := hmove n (Hitch.offer_le hoffer)
    rcases hrun : move n d.inner with ⟨e | a, inner⟩
    · exact Ends.of_error (t := ⟨inner, d.hitches.tail⟩) (by rw [meet, hoffer]; simp only [hrun])
        (hend.error hrun)
    · exact Ends.of_ok (t := ⟨inner, d.hitches.tail⟩) (by rw [meet, hoffer]; simp only [hrun])
        (hend.ok hrun)

lemma meet_ok {a : α} (h : meet len move d = (.ok a, d')) :
    ∃ n ≤ len, move n d.inner = (.ok a, d'.inner) := by
  unfold meet at h
  rcases hoffer : (d.hitches.headD .clear).offer len with e | n
  · rw [hoffer] at h
    cases h
  · rw [hoffer] at h
    obtain ⟨hanswer, rfl⟩ := Prod.mk.inj h
    exact ⟨n, Hitch.offer_le hoffer, Prod.ext hanswer rfl⟩

/-- Where no hitch is left, calls are passed on. -/
lemma meet_clear (inner : δ) :
    meet len move ⟨inner, []⟩ = ((move len inner).1, ⟨(move len inner).2, []⟩) := rfl

/-! ### The files -/

/-- The files behind the hitches. -/
def fileView (F : Device.Files δ) : Device.Files (Hampered δ) where
  bytes d := F.bytes d.inner
  Present d := F.Present d.inner
  Honest d := F.Honest d.inner
  Apart := F.Apart

lemma stays_of_inner {F : Device.Files δ} (h : F.Stays d.inner d'.inner) : (fileView F).Stays d d' :=
  ⟨h.honest, h.bytes, h.present⟩

/-- The files do not depend on the hitches. -/
lemma stays_setHitches {F : Device.Files δ} (hd : (fileView F).Honest d) (hitches : List Hitch) :
    (fileView F).Stays d ⟨d.inner, hitches⟩ :=
  ⟨hd, rfl, fun h => h⟩

lemma meet_calm {F : Device.Files δ} {Q : (String → Bytes) → α → Prop}
    (h : ∀ n ≤ len, F.Calm (move n) Q) : (fileView F).Calm (meet len move) Q := fun d hd =>
  (meet_ends (fun n hn => h n hn d.inner hd) fun _ => .refl hd).mono
    (fun _ _ h => ⟨stays_of_inner h.1, h.2⟩) fun _ _ h => stays_of_inner h

variable [Device δ]

/-- Whatever hitches the calls meet, they keep to the files behind them. -/
def account (A : Device.Account δ) : Device.Account (Hampered δ) where
  toFiles := fileView A.toFiles
  makeDirs_calm path := meet_calm fun _ _ => A.makeDirs_calm path
  length_calm path := meet_calm fun _ _ => A.length_calm path
  attach_calm path := meet_calm fun _ _ => A.attach_calm path
  attach_present hd hrun := by
    obtain ⟨-, -, hinner⟩ := meet_ok hrun
    exact A.attach_present hd hinner
  size_calm path := meet_calm fun _ _ => A.size_calm path
  size_eq hd hpath hrun := by
    obtain ⟨-, -, hinner⟩ := meet_ok hrun
    exact A.size_eq hd hpath hinner
  readAt_calm path pos len := meet_calm fun n hn _ hd => (A.readAt_calm path pos n _ hd).mono_ok
    fun _ _ h => ⟨h.1, h.2.trans (List.take_prefix_take_left hn)⟩
  writeAt_ends path pos part d hd hpath :=
    (meet_ends (fun n hn => A.writeAt_extract pos hn hd hpath) fun _ => .refl hd).mono
      (fun _ _ h => ⟨h.1, h.2.honest, h.2.written, h.2.others, h.2.present⟩)
      fun _ _ h => stays_of_inner h
  sync_calm path := meet_calm fun _ _ => A.sync_calm path

variable {A : Device.Account δ} {folder : String} {own : Set String}

omit [Device δ] in
/-- A call that meets no hitch serves as it does behind them. -/
lemma meet_serves (hclear : d.hitches = []) (h : Ends (move len) d.inner Q R) :
    Ends (meet len move) d (fun a d' => d'.hitches = [] ∧ Q a d'.inner)
      fun e d' => d'.hitches = [] ∧ R e d'.inner := by
  obtain ⟨inner, hitches⟩ := d
  obtain rfl : hitches = [] := hclear
  rcases hrun : move len inner with ⟨e | a, inner'⟩
  · exact Ends.of_error (by rw [meet_clear, hrun]) ⟨rfl, h.error hrun⟩
  · exact Ends.of_ok (by rw [meet_clear, hrun]) ⟨rfl, h.ok hrun⟩

/-- Without hitches the device serves as it does behind them. -/
def service (V : A.Service folder own) : (account A).Service folder own where
  Ready d := d.hitches = [] ∧ V.Ready d.inner
  Room := V.Room
  makeDirs_serves d hd := (meet_serves hd.1 (V.makeDirs_serves d.inner hd.2)).mono_error fun _ _ h => h.2
  attach_serves path hpath d hd :=
    (meet_serves hd.1 (V.attach_serves path hpath d.inner hd.2)).mono_error fun _ _ h => h.2
  length_serves path d hd hpath :=
    (meet_serves hd.1 (V.length_serves path d.inner hd.2 hpath)).mono_error fun _ _ h => h.2
  size_serves path d hd := (meet_serves hd.1 (V.size_serves path d.inner hd.2)).mono_error
    fun _ _ h => ⟨⟨h.1, h.2.1⟩, h.2.2⟩
  readAt_serves path pos len d hd hlen :=
    (meet_serves hd.1 (V.readAt_serves path pos len d.inner hd.2 hlen)).mono
      (fun _ _ h => ⟨⟨h.1, h.2.1⟩, h.2.2⟩) fun _ _ h => ⟨⟨h.1, h.2.1⟩, h.2.2⟩
  writeAt_serves path pos part d hd hpath hpart := (meet_serves hd.1
    (V.writeAt_serves path pos (part.extract 0 part.size) d.inner hd.2 hpath
      (by rwa [ByteArray.extract_zero_size]))).mono
    (fun _ _ h => ⟨⟨h.1, h.2.1⟩, h.2.2⟩) fun _ _ h => ⟨⟨h.1, h.2.1⟩, h.2.2⟩
  sync_serves path d hd hpath :=
    (meet_serves hd.1 (V.sync_serves path d.inner hd.2 hpath)).mono_error fun _ _ h => h.2

/-! ### Writes that are broken off -/

/-- A write that moves some bytes and is refused then is broken off behind them. -/
lemma writeExact_torn {inner inner' : δ} {path : String} {pos n : ℕ} {bytes : ByteArray} {e : IoError}
    (hpos : 0 < n) (hn : n < bytes.size) (he : e.kind ≠ .interrupted)
    (hwrite : Device.writeAt path pos (bytes.extract 0 n) inner = (.ok n, inner')) :
    Device.writeExact path pos bytes (⟨inner, [.short n, .refused e]⟩ : Hampered δ)
      = (.error e, ⟨inner', []⟩) := by
  have hshort : Device.writeAt path pos (bytes.extract 0 bytes.size)
      (⟨inner, [.short n, .refused e]⟩ : Hampered δ) = (.ok n, ⟨inner', [.refused e]⟩) := by
    have hmeet : (Hitch.short n).offer bytes.size = .ok n := congrArg Except.ok (min_eq_left hn.le)
    rw [ByteArray.extract_zero_size]
    change meet bytes.size _ _ = _
    simp only [meet, List.headD_cons, List.tail_cons, hmeet, hwrite]
  have hrefused : Device.writeAt path (pos + n) (bytes.extract n bytes.size)
      (⟨inner', [.refused e]⟩ : Hampered δ) = (.error e, ⟨inner', []⟩) := rfl
  -- the bytes are enough for two rounds
  have hrounds : ∀ rounds, 1 < rounds → Transfer.writeRounds (Device.writeAt path) Device.stalls bytes
      rounds pos 0 (⟨inner, [.short n, .refused e]⟩ : Hampered δ) = ((.error e, n), ⟨inner', []⟩) := by
    intro rounds hrounds
    obtain ⟨rounds, rfl⟩ := Nat.exists_eq_add_of_le' hrounds
    rw [Transfer.writeRounds, if_pos (by omega), Device.persist_answered hshort]
    simp only [if_neg hpos.ne', Nat.zero_add]
    rw [Transfer.writeRounds, if_pos hn, Device.persist_refused hrefused he]
  rw [Device.writeExact, hrounds _ (by omega)]

end Hampered

end PageCatalog
