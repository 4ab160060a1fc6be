import Mathlib.Tactic
import PageCatalog.Proofs.Computation
import PageCatalog.Proofs.Page.Region

/-!
What an exact transfer does, call by call.

A transfer is made of calls that move some of the bytes they are offered, move none, are
interrupted or are refused. Here a file answers its calls in a given order, whatever that is, and
keeps account of them. Each call goes on where the calls before it have come to, and what
ends the transfer is the first call that neither moves a byte nor is interrupted.

* `Scripted`: a file whose calls have given outcomes; `Scripted.leading` are the outcomes that a
  transfer goes on after, `Scripted.stop` is what it ends with behind them.
* `Scripted.Follows`: the result of a transfer, how far it comes and the calls it makes;
  `Follows.step` goes one call back.
* `Scripted.readRounds_follows`, `Scripted.writeRounds_follows`: reads and writes follow their
  outcomes.
* `Scripted.transfers_follow`: whole transfers, and the bytes they move.
-/

namespace PageCatalog

/-- What a call does: it moves up to a number of bytes, or is refused. -/
abbrev Outcome := Except IoError ℕ

/-- A file whose calls have given outcomes, with the bytes at all positions and the place
and offer of every call made so far. -/
structure Scripted (α : Type) where
  content : ℕ → UInt8
  outcomes : List Outcome
  calls : List (ℕ × α) := []

namespace Scripted

/-! ### Calls -/

/-- The next outcome of a call that offers `len` bytes; behind the last outcome no call
moves a byte. -/
def next {α : Type} (pos : ℕ) (offer : α) (len : ℕ) : DeviceM (Scripted α) ℕ := fun s =>
  let s' : Scripted α := ⟨s.content, s.outcomes.tail, s.calls ++ [(pos, offer)]⟩
  match s.outcomes with
  | [] => (.ok 0, s')
  | .ok n :: _ => (.ok (min n len), s')
  | .error e :: _ => (.error e, s')

/-- The `len` bytes from `pos` on. -/
def stretch (content : ℕ → UInt8) (pos len : ℕ) : Bytes :=
  (List.range len).map fun i => content (pos + i)

/-- The bytes at all positions after some were written from `pos` on. -/
def written (content : ℕ → UInt8) (pos : ℕ) (bs : Bytes) : ℕ → UInt8 := fun i =>
  if pos ≤ i then (bs[i - pos]?).getD (content i) else content i

/-- A read offers room for a number of bytes. -/
def readAt (pos len : ℕ) : DeviceM (Scripted ℕ) ByteArray := fun s =>
  match next pos len len s with
  | (.ok n, s') => (.ok (Page.ofBytes (stretch s.content pos n)), s')
  | (.error e, s') => (.error e, s')

/-- A write offers bytes. -/
def writeAt (pos : ℕ) (bytes : ByteArray) : DeviceM (Scripted Bytes) ℕ := fun s =>
  match next pos (Page.bytes bytes) bytes.size s with
  | (.ok n, s') =>
    (.ok n, { s' with content := written s.content pos ((Page.bytes bytes).take n) })
  | (.error e, s') => (.error e, s')

/-- Every interruption takes an outcome. -/
def stalls {α : Type} (s : Scripted α) : ℕ := s.outcomes.length

/-! ### Outcomes -/

/-- A transfer goes on after a call that moved a byte, and after an interrupted one. -/
def GoesOn : Outcome → Prop
  | .ok n => 0 < n
  | .error e => e.kind = .interrupted

instance : DecidablePred GoesOn
  | .ok n => inferInstanceAs (Decidable (0 < n))
  | .error e => inferInstanceAs (Decidable (e.kind = .interrupted))

/-- The bytes that a call would move if it were offered enough. -/
def ready : Outcome → ℕ
  | .ok n => n
  | .error _ => 0

/-- The bytes that a row of calls would move. -/
def total (os : List Outcome) : ℕ := (os.map ready).sum

/-- The outcomes that a transfer goes on after. -/
def leading (os : List Outcome) : List Outcome := os.takeWhile fun o => GoesOn o

/-- What a transfer fails with behind them. -/
def stop (short : IoError) (os : List Outcome) : IoError :=
  match os.dropWhile fun o => GoesOn o with
  | .error e :: _ => e
  | _ => short

variable {α : Type} {os : List Outcome} {o : Outcome} {offer : ℕ → α} {short : IoError}
  {pos len moved : ℕ} {r : Except IoError Unit} {calls : List (ℕ × α)}

/-- What a first call would move comes on top. -/
lemma total_cons (o : Outcome) (os : List Outcome) : total (o :: os) = ready o + total os := by
  simp [total]

/-- A transfer goes on after its first call. -/
lemma leading_of_goesOn (h : GoesOn o) : leading (o :: os) = o :: leading os := by
  rw [leading, List.takeWhile_cons_of_pos (by simpa using h), leading]

/-- A transfer ends with its first call. -/
lemma leading_of_not_goesOn (h : ¬ GoesOn o) : leading (o :: os) = [] := by
  rw [leading, List.takeWhile_cons_of_neg (by simpa using h)]

/-- What ends a transfer stands behind the calls that it goes on after. -/
lemma stop_of_goesOn (h : GoesOn o) : stop short (o :: os) = stop short os := by
  rw [stop, List.dropWhile_cons_of_pos (by simpa using h), stop]

/-! ### Following the outcomes -/

/-- A transfer of `len` bytes from `pos` on, of which `offer d` is left after `d` bytes,
ends with the result `r` after `moved` bytes and has made these calls. -/
structure Follows (offer : ℕ → α) (short : IoError) (pos len : ℕ) (os : List Outcome)
    (r : Except IoError Unit) (moved : ℕ) (calls : List (ℕ × α)) : Prop where
  /-- It succeeds exactly if the bytes are there before the first outcome that ends it. -/
  result : r = if len ≤ total (leading os) then .ok () else .error (stop short os)
  /-- It comes as far as the outcomes before that one, but never further than its end. -/
  moved_eq : moved = min len (total (leading os))
  /-- Call `k` is made if bytes are left after `k` outcomes, and is offered what is left. -/
  calls_eq : ∀ k, calls[k]? =
    if k ≤ (leading os).length ∧ total ((leading os).take k) < len then
      some (pos + total ((leading os).take k), offer (total ((leading os).take k)))
    else none

/-- Where nothing is left, no call is made. -/
lemma Follows.done (offer : ℕ → α) (short : IoError) (pos : ℕ) (os : List Outcome) :
    Follows offer short pos 0 os (.ok ()) 0 [] where
  result := by rw [if_pos (Nat.zero_le _)]
  moved_eq := (Nat.zero_min _).symm
  calls_eq k := by simp

/-- An outcome that ends the transfer, or none. -/
lemma Follows.ends (offer : ℕ → α) (short : IoError) (pos : ℕ) (hlen : 0 < len)
    (h : leading os = []) :
    Follows offer short pos len os (.error (stop short os)) 0 [(pos, offer 0)] where
  result := by
    rw [h, if_neg (show ¬ len ≤ total [] from Nat.not_le.mpr hlen)]
  moved_eq := by simp [h, total]
  calls_eq k := by
    cases k with
    | zero => simp [h, total, hlen]
    | succ k => simp [h]

/-- After a call that the transfer goes on after, the rest is a transfer from where the
call has come to. -/
lemma Follows.step (ho : GoesOn o) (hlen : 0 < len)
    (h : Follows (fun d => offer (min (ready o) len + d)) short (pos + min (ready o) len)
      (len - min (ready o) len) os r moved calls) :
    Follows offer short pos len (o :: os) r (min (ready o) len + moved)
      ((pos, offer 0) :: calls) where
  result := by
    rw [leading_of_goesOn ho, stop_of_goesOn ho, total_cons, h.result]
    congr 1
    exact propext (by omega)
  moved_eq := by
    rw [leading_of_goesOn ho, total_cons, h.moved_eq]
    omega
  -- Call `k + 1` of the whole is call `k` of the rest, whose offers begin that much later.
  calls_eq k := by
    rw [leading_of_goesOn ho]
    cases k with
    | zero => simp [total, hlen]
    | succ k =>
        rw [List.getElem?_cons_succ, h.calls_eq k, List.take_succ_cons, total_cons,
          List.length_cons]
        -- a call that took all that was offered is the last one
        by_cases hall : ready o < len
        · rw [Nat.min_eq_left (Nat.le_of_lt hall), Nat.add_assoc]
          congr 1
          exact propext (by omega)
        · rw [if_neg (by omega), if_neg (by omega)]

/-- What a call meets that ends a transfer: nothing moves, or it is refused. -/
lemma next_ended (content : ℕ → UInt8) (calls : List (ℕ × α)) (pos : ℕ) (offer : α) (len : ℕ)
    (short : IoError) (h : leading os = []) :
    next pos offer len ⟨content, os, calls⟩ =
        (.ok 0, ⟨content, os.tail, calls ++ [(pos, offer)]⟩) ∧ stop short os = short ∨
      ∃ e : IoError, e.kind ≠ .interrupted ∧
        next pos offer len ⟨content, os, calls⟩ =
          (.error e, ⟨content, os.tail, calls ++ [(pos, offer)]⟩) ∧ stop short os = e := by
  -- There is no outcome left, or the next one is a refusal, or a call that moves nothing.
  rcases os with _ | ⟨o, os⟩
  · exact .inl ⟨rfl, rfl⟩
  · have ho : ¬ GoesOn o := fun ho => by
      rw [leading_of_goesOn ho] at h
      cases h
    have hstop : (o :: os).dropWhile (fun o => GoesOn o) = o :: os :=
      List.dropWhile_cons_of_neg (by simpa using ho)
    rw [stop, hstop]
    rcases o with e | n
    · exact .inr ⟨e, ho, rfl, rfl⟩
    · obtain rfl : n = 0 := Nat.eq_zero_of_not_pos ho
      refine .inl ⟨?_, rfl⟩
      simp only [next, Nat.zero_min, List.tail_cons]

/-! ### Reading -/

section Reading

variable {content : ℕ → UInt8} {reads : List (ℕ × ℕ)} {rounds left n : ℕ} {got : ByteArray}
  {e : IoError}

/-- Bytes read one behind the other. -/
lemma stretch_add (content : ℕ → UInt8) (pos m n : ℕ) :
    stretch content pos (m + n) = stretch content pos m ++ stretch content (pos + m) n := by
  simp [stretch, List.range_add, Nat.add_assoc]

/-- The bytes of two buffers put together. -/
lemma bytes_append (a b : ByteArray) : Page.bytes (a ++ b) = Page.bytes a ++ Page.bytes b := by
  simp [Page.bytes]

/-- As many bytes as were asked for. -/
@[simp] lemma size_stretch (content : ℕ → UInt8) (pos len : ℕ) :
    (Page.ofBytes (stretch content pos len)).size = len := by
  rw [← Page.length_bytes, Page.bytes_ofBytes, stretch, List.length_map, List.length_range]

/-- An interrupted call is made again in the same round. -/
lemma readRounds_interrupted (he : e.kind = .interrupted) :
    Transfer.readRounds readAt stalls (rounds + 1) pos (left + 1) got
        ⟨content, .error e :: os, reads⟩ =
      Transfer.readRounds readAt stalls (rounds + 1) pos (left + 1) got
        ⟨content, os, reads ++ [(pos, left + 1)]⟩ := by
  have hcall : readAt pos (left + 1) ⟨content, .error e :: os, reads⟩
      = (.error e, ⟨content, os, reads ++ [(pos, left + 1)]⟩) := rfl
  rw [Transfer.readRounds, Transfer.readRounds, stalls, List.length_cons,
    Device.persist_interrupted hcall he, stalls]

/-- A call that moved bytes is the end of its round. -/
lemma readRounds_moved (hn : 0 < n) :
    Transfer.readRounds readAt stalls (rounds + 1) pos (left + 1) got
        ⟨content, .ok n :: os, reads⟩ =
      Transfer.readRounds readAt stalls rounds (pos + min n (left + 1)) (left + 1 - min n (left + 1))
        (got ++ Page.ofBytes (stretch content pos (min n (left + 1))))
        ⟨content, os, reads ++ [(pos, left + 1)]⟩ := by
  have hcall : readAt pos (left + 1) ⟨content, .ok n :: os, reads⟩
      = (.ok (Page.ofBytes (stretch content pos (min n (left + 1)))),
        ⟨content, os, reads ++ [(pos, left + 1)]⟩) := rfl
  rw [Transfer.readRounds, Device.persist_answered hcall]
  simp only [size_stretch]
  rw [if_neg (by omega)]

/-- A call that moved nothing, or was refused, is the end of the read. -/
lemma readRounds_ended (h : leading os = []) :
    Transfer.readRounds readAt stalls (rounds + 1) pos (left + 1) got ⟨content, os, reads⟩ =
      ((.error (stop .endOfFile os), got), ⟨content, os.tail, reads ++ [(pos, left + 1)]⟩) := by
  rcases next_ended content reads pos (left + 1) (left + 1) .endOfFile h with
    ⟨hnext, hstop⟩ | ⟨e, he, hnext, hstop⟩
  · have hcall : readAt pos (left + 1) ⟨content, os, reads⟩
        = (.ok (Page.ofBytes []), ⟨content, os.tail, reads ++ [(pos, left + 1)]⟩) := by
      rw [readAt, hnext]
      rfl
    rw [Transfer.readRounds, Device.persist_answered hcall, hstop]
    rfl
  · have hcall : readAt pos (left + 1) ⟨content, os, reads⟩
        = (.error e, ⟨content, os.tail, reads ++ [(pos, left + 1)]⟩) := by
      rw [readAt, hnext]
    rw [Transfer.readRounds, Device.persist_refused hcall he, hstop]

/-- The end of a read of `left` bytes from `pos` on that has got some bytes before and made
some calls. -/
def ReadEnds (content : ℕ → UInt8) (os : List Outcome) (reads : List (ℕ × ℕ)) (pos left : ℕ)
    (got : Bytes) (result : (Except IoError Unit × ByteArray) × Scripted ℕ) : Prop :=
  ∃ moved calls, Page.bytes result.1.2 = got ++ stretch content pos moved ∧
    result.2.content = content ∧ result.2.calls = reads ++ calls ∧
    Follows (left - ·) .endOfFile pos left os result.1.1 moved calls

/-- A read that has got all its bytes makes no more calls. -/
lemma ReadEnds.done :
    ReadEnds content os reads pos 0 (Page.bytes got) ((.ok (), got), ⟨content, os, reads⟩) :=
  ⟨0, [], by simp [stretch], rfl, by simp, .done _ _ _ _⟩

/-- A read that ends with its next call. -/
lemma ReadEnds.ends (hleft : 0 < left) (h : leading os = []) :
    ReadEnds content os reads pos left (Page.bytes got)
      ((.error (stop .endOfFile os), got), ⟨content, os.tail, reads ++ [(pos, left)]⟩) :=
  ⟨0, _, by simp [stretch], rfl, rfl, .ends _ _ _ hleft h⟩

/-- After a call that does not end it, the rest of a read is one from where the call has come to. -/
lemma ReadEnds.step {result : (Except IoError Unit × ByteArray) × Scripted ℕ} {bs : Bytes}
    (ho : GoesOn o) (hleft : 0 < left)
    (h : ReadEnds content os (reads ++ [(pos, left)]) (pos + min (ready o) left)
      (left - min (ready o) left) (bs ++ stretch content pos (min (ready o) left)) result) :
    ReadEnds content (o :: os) reads pos left bs result := by
  obtain ⟨moved, calls, hgot, hcontent, hcalls, hfollows⟩ := h
  refine ⟨min (ready o) left + moved, (pos, left) :: calls, ?_, hcontent, ?_, .step ho hleft ?_⟩
  · rw [hgot, stretch_add, List.append_assoc]
  · rw [hcalls, List.append_assoc]
    rfl
  · simpa only [Nat.sub_sub] using hfollows

/-- The rounds of a read follow the outcomes of its calls. -/
lemma readRounds_follows (content : ℕ → UInt8) (os : List Outcome) (reads : List (ℕ × ℕ))
    (pos : ℕ) (got : ByteArray) (hrounds : left ≤ rounds) :
    ReadEnds content os reads pos left (Page.bytes got)
      (Transfer.readRounds readAt stalls rounds pos left got ⟨content, os, reads⟩) := by
  -- By induction on the outcomes. A round is used up by each call that moves a byte, so there are
  -- enough rounds for the bytes that are left; an interruption uses up none.
  induction os generalizing reads rounds pos left got with
  | nil =>
      rcases left with _ | left
      · rw [Transfer.readRounds]
        exact .done
      · obtain ⟨rounds, rfl⟩ := Nat.exists_eq_succ_of_ne_zero (show rounds ≠ 0 by omega)
        rw [readRounds_ended rfl]
        exact .ends (Nat.succ_pos _) rfl
  | cons o os ih =>
      rcases left with _ | left
      · rw [Transfer.readRounds]
        exact .done
      · obtain ⟨rounds, rfl⟩ := Nat.exists_eq_succ_of_ne_zero (show rounds ≠ 0 by omega)
        by_cases ho : GoesOn o
        · refine .step ho (Nat.succ_pos left) ?_
          rcases o with e | n
          · rw [readRounds_interrupted ho]
            simpa [ready, stretch] using ih _ _ _ hrounds
          · rw [readRounds_moved ho]
            have hpos : 0 < n := ho
            have hrest := ih (reads ++ [(pos, left + 1)]) (pos + min n (left + 1))
              (got ++ Page.ofBytes (stretch content pos (min n (left + 1))))
              (show left + 1 - min n (left + 1) ≤ rounds by omega)
            rwa [bytes_append, Page.bytes_ofBytes] at hrest
        · have hnone : leading (o :: os) = [] := leading_of_not_goesOn ho
          rw [readRounds_ended hnone]
          exact .ends (Nat.succ_pos _) hnone

end Reading

/-! ### Writing -/

section Writing

variable {content : ℕ → UInt8} {writes : List (ℕ × Bytes)} {rounds d n : ℕ} {bytes : ByteArray}
  {e : IoError}

/-- Writing nothing changes nothing. -/
lemma written_nil (content : ℕ → UInt8) (pos : ℕ) : written content pos [] = content := by
  funext i
  simp [written]

/-- Bytes written one behind the other. -/
lemma written_append (content : ℕ → UInt8) (pos : ℕ) (as bs : Bytes) :
    written (written content pos as) (pos + as.length) bs = written content pos (as ++ bs) := by
  funext i
  simp only [written, List.getElem?_append]
  by_cases hi : pos ≤ i
  · by_cases hin : i - pos < as.length
    · rw [if_neg (by omega), if_pos hi, if_pos hi, if_pos hin]
    · have hnone : as[i - pos]? = none := List.getElem?_eq_none (by omega)
      rw [if_pos (by omega), if_pos hi, if_pos hi, if_neg hin, hnone, Option.getD_none, Nat.sub_sub]
  · rw [if_neg (by omega), if_neg hi, if_neg hi]

/-- What is left of a buffer behind an offset. -/
lemma bytes_rest (bytes : ByteArray) (d : ℕ) :
    Page.bytes (bytes.extract d bytes.size) = (Page.bytes bytes).drop d := by
  simp [Page.bytes, List.extract_eq_take_drop]

/-- An interrupted call is made again in the same round. -/
lemma writeRounds_interrupted (hd : d < bytes.size) (he : e.kind = .interrupted) :
    Transfer.writeRounds writeAt stalls bytes (rounds + 1) pos d
        ⟨content, .error e :: os, writes⟩ =
      Transfer.writeRounds writeAt stalls bytes (rounds + 1) pos d
        ⟨content, os, writes ++ [(pos, (Page.bytes bytes).drop d)]⟩ := by
  have hcall : writeAt pos (bytes.extract d bytes.size) ⟨content, .error e :: os, writes⟩
      = (.error e, ⟨content, os, writes ++ [(pos, (Page.bytes bytes).drop d)]⟩) := by
    rw [← bytes_rest]
    rfl
  rw [Transfer.writeRounds, Transfer.writeRounds, if_pos hd, if_pos hd, stalls, List.length_cons,
    Device.persist_interrupted hcall he, stalls]

/-- A call that moved bytes is the end of its round. -/
lemma writeRounds_moved (hd : d < bytes.size) (hn : 0 < n) :
    Transfer.writeRounds writeAt stalls bytes (rounds + 1) pos d
        ⟨content, .ok n :: os, writes⟩ =
      Transfer.writeRounds writeAt stalls bytes rounds (pos + min n (bytes.size - d))
        (d + min n (bytes.size - d))
        ⟨written content pos (((Page.bytes bytes).drop d).take (min n (bytes.size - d))), os,
          writes ++ [(pos, (Page.bytes bytes).drop d)]⟩ := by
  have hcall : writeAt pos (bytes.extract d bytes.size) ⟨content, .ok n :: os, writes⟩
      = (.ok (min n (bytes.size - d)),
        ⟨written content pos (((Page.bytes bytes).drop d).take (min n (bytes.size - d))), os,
          writes ++ [(pos, (Page.bytes bytes).drop d)]⟩) := by
    have hsize : (bytes.extract d bytes.size).size = bytes.size - d := by
      rw [ByteArray.size_extract, Nat.min_self]
    rw [← bytes_rest, ← hsize]
    rfl
  rw [Transfer.writeRounds, if_pos hd, Device.persist_answered hcall]
  simp only
  rw [if_neg (by omega)]

/-- A call that moved nothing, or was refused, is the end of the write. -/
lemma writeRounds_ended (hd : d < bytes.size) (h : leading os = []) :
    Transfer.writeRounds writeAt stalls bytes (rounds + 1) pos d ⟨content, os, writes⟩ =
      ((.error (stop .nothingWritten os), d),
        ⟨content, os.tail, writes ++ [(pos, (Page.bytes bytes).drop d)]⟩) := by
  rw [Transfer.writeRounds, if_pos hd]
  rcases next_ended content writes pos (Page.bytes (bytes.extract d bytes.size))
    (bytes.extract d bytes.size).size .nothingWritten h with ⟨hnext, hstop⟩ | ⟨e, he, hnext, hstop⟩
  · have hcall : writeAt pos (bytes.extract d bytes.size) ⟨content, os, writes⟩
        = (.ok 0, ⟨content, os.tail, writes ++ [(pos, (Page.bytes bytes).drop d)]⟩) := by
      rw [writeAt, hnext]
      simp only [List.take_zero, written_nil, bytes_rest]
    rw [Device.persist_answered hcall, hstop]
    rfl
  · have hcall : writeAt pos (bytes.extract d bytes.size) ⟨content, os, writes⟩
        = (.error e, ⟨content, os.tail, writes ++ [(pos, (Page.bytes bytes).drop d)]⟩) := by
      rw [writeAt, hnext, bytes_rest]
    rw [Device.persist_refused hcall he, hstop]

/-- The end of a write of `bs` from the offset `d` on, that byte at `pos`, that has made some
calls before. -/
def WriteEnds (content : ℕ → UInt8) (os : List Outcome) (writes : List (ℕ × Bytes)) (pos d : ℕ)
    (bs : Bytes) (result : (Except IoError Unit × ℕ) × Scripted Bytes) : Prop :=
  ∃ moved calls, result.1.2 = d + moved ∧
    result.2.content = written content pos ((bs.drop d).take moved) ∧
    result.2.calls = writes ++ calls ∧
    Follows (fun k => bs.drop (d + k)) .nothingWritten pos (bs.length - d) os result.1.1 moved calls

/-- A write that has moved all its bytes makes no more calls. -/
lemma WriteEnds.done {bs : Bytes} (hd : bs.length ≤ d) :
    WriteEnds content os writes pos d bs ((.ok (), d), ⟨content, os, writes⟩) := by
  refine ⟨0, [], rfl, by simp [written_nil], by simp, ?_⟩
  rw [Nat.sub_eq_zero_of_le hd]
  exact .done _ _ _ _

/-- A write that ends with its next call. -/
lemma WriteEnds.ends {bs : Bytes} (hd : d < bs.length) (h : leading os = []) :
    WriteEnds content os writes pos d bs
      ((.error (stop .nothingWritten os), d), ⟨content, os.tail, writes ++ [(pos, bs.drop d)]⟩) :=
  ⟨0, _, rfl, by simp [written_nil], rfl, .ends _ _ _ (by omega) h⟩

/-- After a call that does not end it, the rest of a write is one from where the call has come
to. -/
lemma WriteEnds.step {result : (Except IoError Unit × ℕ) × Scripted Bytes} {bs : Bytes} {m : ℕ}
    (ho : GoesOn o) (hd : d < bs.length) (hm : min (ready o) (bs.length - d) = m)
    (h : WriteEnds (written content pos ((bs.drop d).take m)) os (writes ++ [(pos, bs.drop d)])
      (pos + m) (d + m) bs result) :
    WriteEnds content (o :: os) writes pos d bs result := by
  obtain ⟨moved, calls, hmoved, hcontent, hcalls, hfollows⟩ := h
  refine ⟨m + moved, (pos, bs.drop d) :: calls, by rw [hmoved, Nat.add_assoc], ?_, ?_, ?_⟩
  · -- what was written by the first call and by the rest of them is one row of bytes
    have hlen : ((bs.drop d).take m).length = m := by
      rw [List.length_take, List.length_drop]
      omega
    have happend := written_append content pos ((bs.drop d).take m) ((bs.drop (d + m)).take moved)
    rw [hlen] at happend
    rw [hcontent, happend, List.take_add, List.drop_drop]
  · rw [hcalls, List.append_assoc]
    rfl
  · subst hm
    refine .step ho (by omega) ?_
    simpa only [Nat.add_assoc, Nat.sub_sub] using hfollows

/-- The rounds of a write follow the outcomes of its calls. -/
lemma writeRounds_follows (content : ℕ → UInt8) (os : List Outcome) (writes : List (ℕ × Bytes))
    (pos : ℕ) (hrounds : bytes.size - d ≤ rounds) :
    WriteEnds content os writes pos d (Page.bytes bytes)
      (Transfer.writeRounds writeAt stalls bytes rounds pos d ⟨content, os, writes⟩) := by
  have hlen : (Page.bytes bytes).length = bytes.size := Page.length_bytes bytes
  -- As for a read. The bytes at all positions change from call to call, so they are general too.
  induction os generalizing writes rounds pos d content with
  | nil =>
      by_cases hd : d < bytes.size
      · obtain ⟨rounds, rfl⟩ := Nat.exists_eq_succ_of_ne_zero (show rounds ≠ 0 by omega)
        rw [writeRounds_ended hd rfl]
        exact .ends (by omega) rfl
      · rw [Transfer.writeRounds_done (by omega)]
        exact .done (by omega)
  | cons o os ih =>
      by_cases hd : d < bytes.size
      · obtain ⟨rounds, rfl⟩ := Nat.exists_eq_succ_of_ne_zero (show rounds ≠ 0 by omega)
        by_cases ho : GoesOn o
        · rcases o with e | n
          · rw [writeRounds_interrupted hd ho]
            refine .step ho (by omega) (Nat.zero_min _) ?_
            rw [List.take_zero, written_nil]
            exact ih _ _ _ hrounds
          · rw [writeRounds_moved hd ho]
            refine .step ho (by omega) (by rw [hlen]; rfl) (ih _ _ _ ?_)
            have hpos : 0 < n := ho
            omega
        · have hnone : leading (o :: os) = [] := leading_of_not_goesOn ho
          rw [writeRounds_ended hd hnone]
          exact .ends (by omega) hnone
      · rw [Transfer.writeRounds_done (by omega)]
        exact .done (by omega)

end Writing

/-! ### Whole transfers -/

/-- A transfer of nothing makes no call. -/
lemma Follows.calls_eq_nil (h : Follows offer short pos len os r moved calls) (hlen : len = 0) :
    calls = [] := by
  refine List.eq_nil_iff_forall_not_mem.mpr fun call hcall => ?_
  obtain ⟨k, hk⟩ := List.mem_iff_getElem?.mp hcall
  rw [h.calls_eq k, if_neg (by omega)] at hk
  cases hk

/-- A transfer moves no more than it is asked to. -/
lemma Follows.moved_le (h : Follows offer short pos len os r moved calls) : moved ≤ len := by
  rw [h.moved_eq]
  exact Nat.min_le_left _ _

/-- A buffer whose beginning was overwritten with the bytes that a read has got. -/
def filled (buffer got : ByteArray) : Bytes :=
  Page.bytes got ++ (Page.bytes buffer).drop got.size

/-- Behind what a read has got, the buffer is what it was. -/
lemma getElem?_filled {content : ℕ → UInt8} {buffer got : ByteArray}
    (hgot : Page.bytes got = stretch content pos got.size) (i : ℕ) :
    (filled buffer got)[i]? =
      if i < got.size then some (content (pos + i)) else (Page.bytes buffer)[i]? := by
  have hlen : (Page.bytes got).length = got.size := Page.length_bytes got
  rw [filled, List.getElem?_append, hlen]
  split
  · rw [hgot, stretch, List.getElem?_map, List.getElem?_range ‹_›]
    rfl
  · rw [List.getElem?_drop]
    congr 1
    omega

/-- An exact transfer makes the calls that its outcomes ask for: each is offered what has not
moved, at the place the transfer has come to; interrupted calls move nothing; and the first
call that moves nothing or is refused otherwise ends the transfer with its failure, unless all
bytes had moved. A read leaves the file alone, and byte `i` of its buffer is the file's byte at
`pos + i` as far as the read has come; a write puts its bytes into the file, one after the
other, as far as it has come. -/
theorem transfers_follow (content : ℕ → UInt8) (os : List Outcome) (pos : ℕ) (buffer : ByteArray) :
    (∃ r got s, Transfer.readRounds readAt stalls buffer.size pos buffer.size .empty
        ⟨content, os, []⟩ = ((r, got), s) ∧
      Follows (buffer.size - ·) .endOfFile pos buffer.size os r got.size s.calls ∧
      (buffer.size = 0 → s.calls = []) ∧ s.content = content ∧
      ∀ i, (filled buffer got)[i]? =
        if i < got.size then some (content (pos + i)) else (Page.bytes buffer)[i]?) ∧
    (∃ r moved s, Transfer.writeRounds writeAt stalls buffer buffer.size pos 0
        ⟨content, os, []⟩ = ((r, moved), s) ∧
      Follows (Page.bytes buffer).drop .nothingWritten pos buffer.size os r moved s.calls ∧
      (buffer.size = 0 → s.calls = []) ∧
      (∀ i < moved, (Page.bytes buffer)[i]? = some (s.content (pos + i))) ∧
      ∀ j, j < pos ∨ pos + moved ≤ j → s.content j = content j) := by
  constructor
  · obtain ⟨moved, calls, hgot, hcontent, hcalls, hfollows⟩ := readRounds_follows content os []
      pos .empty (le_refl buffer.size)
    rcases hrun : Transfer.readRounds readAt stalls buffer.size pos buffer.size .empty
      ⟨content, os, []⟩ with ⟨⟨r, got⟩, s⟩
    rw [hrun] at hgot hcontent hcalls hfollows
    obtain rfl : calls = s.calls := hcalls.symm
    -- A buffer has as many bytes as were read into it, so its size tells how far the read has
    -- come.
    replace hgot : Page.bytes got = stretch content pos moved := hgot
    obtain rfl : got.size = moved := by
      rw [← Page.length_bytes got, hgot, stretch, List.length_map, List.length_range]
    exact ⟨r, got, s, rfl, hfollows, hfollows.calls_eq_nil, hcontent, getElem?_filled hgot⟩
  · obtain ⟨moved, calls, hmoved, hcontent, hcalls, hfollows⟩ := writeRounds_follows content os []
      pos (show buffer.size - 0 ≤ buffer.size from le_rfl)
    rcases hrun : Transfer.writeRounds writeAt stalls buffer buffer.size pos 0
      ⟨content, os, []⟩ with ⟨⟨r, n⟩, s⟩
    rw [hrun] at hmoved hcontent hcalls hfollows
    obtain rfl : calls = s.calls := hcalls.symm
    obtain rfl : n = moved := hmoved.trans (Nat.zero_add _)
    simp only [Nat.zero_add, Nat.sub_zero, Page.length_bytes, List.drop_zero] at hcontent hfollows
    have hle := hfollows.moved_le
    have hlen : (Page.bytes buffer).length = buffer.size := Page.length_bytes buffer
    refine ⟨r, n, s, rfl, hfollows, hfollows.calls_eq_nil, fun i hi => ?_, fun j hj => ?_⟩
    · rw [hcontent, written, if_pos (by omega), Nat.add_sub_cancel_left, List.getElem?_take_of_lt hi,
        List.getElem?_eq_getElem (by omega), Option.getD_some]
    · rw [hcontent, written]
      split
      · rw [List.getElem?_eq_none (by rw [List.length_take]; omega), Option.getD_none]
      · rfl

-- an interrupted call between two that move something
example : (Transfer.readRounds readAt stalls 5 10 5 .empty
    ⟨fun _ => 7, [.ok 2, .error .interruption, .ok 9], []⟩).2.calls = [(10, 5), (12, 3), (12, 3)] := by
  rfl

end Scripted

end PageCatalog
