import PageCatalog.Bytes
import PageCatalog.Error

/-!
Pages: blocks of bytes of a fixed size, and checked ways to read and change them.

A page is read and changed only through `slice`, `splice` and `slide`, which
fail outside the page and never change its size. Each of them is described on
the page's list of bytes, `Page.bytes`.

* `Page.slice`: the bytes of a range; `Page.slice_eq`.
* `Page.splice`: new bytes over old ones; `Page.bytes_of_splice`.
* `Page.slide`: a range of bytes moved inside the page; `Page.bytes_of_slide`.
* `PageM`: computations that read and change one page; what they changed before
  they fail stays changed.
-/

namespace PageCatalog

/-- A block of bytes. -/
abbrev Page := ByteArray

namespace Page

/-- A page full of zeros. -/
def zeros (size : Nat) : Page := ⟨Array.replicate size 0⟩

/-- The bytes of a page as a list. -/
def bytes (p : Page) : Bytes := p.data.toList

/-- The page with given bytes. -/
def ofBytes (bs : Bytes) : Page := ⟨bs.toArray⟩

/-- The page with `bs` written one after the other from `off` on, as far as they fit. -/
def overlay (p : Page) (off : Nat) : Bytes → Page
  | [] => p
  | b :: bs => overlay (p.set! off b) (off + 1) bs

/-- The `len` bytes from `off` on. -/
def slice (p : Page) (off len : Nat) : Except Failure Bytes :=
  if off + len ≤ p.size then .ok (p.extract off (off + len)).data.toList
  else .error .outOfBounds

/-- The page with `bs` written over the bytes from `off` on. -/
def splice (p : Page) (off : Nat) (bs : Bytes) : Except Failure Page :=
  if off + bs.length ≤ p.size then .ok (p.overlay off bs)
  else .error .outOfBounds

/-- The page with `len` times the byte `b` written from `off` on. -/
def fill (p : Page) (off len : Nat) (b : UInt8) : Except Failure Page :=
  if off + len ≤ p.size then p.splice off (List.replicate len b) else .error .outOfBounds

/-- The page with its bytes from `start` to `stop` copied to `target`. -/
def slide (p : Page) (start stop target : Nat) : Except Failure Page :=
  if start ≤ stop ∧ stop ≤ p.size ∧ target + (stop - start) ≤ p.size then
    .ok (ofBytes (p.bytes.take target ++ (p.bytes.drop start).take (stop - start)
      ++ p.bytes.drop (target + (stop - start))))
  else .error .outOfBounds

/-- The number written in the `width` bytes from `off` on. -/
def number (p : Page) (off width : Nat) : Except Failure Nat :=
  (p.slice off width).map Bytes.toNat

/-- The page with `n` written in the `width` bytes from `off` on. -/
def setNumber (p : Page) (off width n : Nat) : Except Failure Page :=
  p.splice off (Bytes.ofNat width n)

/-- The id written at `off`. -/
def pageId (p : Page) (off : Nat) : Except Failure PageId :=
  (p.number off 8).map PageId.ofNat

/-- The page with an id written at `off`. -/
def setPageId (p : Page) (off : Nat) (id : PageId) : Except Failure Page :=
  p.setNumber off 8 id.toNat

/-- A page is shown by its size. -/
def inspect (p : Page) : String := s!"Page \x7b size: {p.size} \x7d"

/-! ### What the operations do to the list of bytes -/

@[simp] theorem length_bytes (p : Page) : p.bytes.length = p.size := by
  simp [bytes]

theorem bytes_zeros (n : Nat) : (zeros n).bytes = List.replicate n 0 := by
  simp [bytes, zeros]

/-- A slice is a range of the bytes, if that lies inside the page. -/
theorem slice_eq (p : Page) (off len : Nat) :
    p.slice off len =
      if off + len ≤ p.size then .ok ((p.bytes.drop off).take len) else .error .outOfBounds := by
  unfold slice bytes
  split
  · simp [List.extract_eq_take_drop]
  · rfl

@[simp] theorem bytes_ofBytes (bs : Bytes) : (ofBytes bs).bytes = bs := by
  simp [bytes, ofBytes]

@[simp] theorem ofBytes_bytes (p : Page) : ofBytes p.bytes = p := by
  simp [bytes, ofBytes]

theorem bytes_set (p : Page) (i : Nat) (b : UInt8) : bytes (p.set! i b) = p.bytes.set i b := by
  simp [bytes, ByteArray.set!]

/-- Written bytes replace exactly those they land on. -/
theorem bytes_overlay (bs : Bytes) (p : Page) (off : Nat) (h : off + bs.length ≤ p.size) :
    (p.overlay off bs).bytes = p.bytes.take off ++ bs ++ p.bytes.drop (off + bs.length) := by
  induction bs generalizing p off with
  | nil => simp [overlay]
  | cons b bs ih =>
    have hsize : ByteArray.size (p.set! off b) = p.size := by
      rw [← length_bytes, bytes_set, List.length_set, length_bytes]
    have hoff : off < p.bytes.length := by
      simp only [List.length_cons] at h
      simpa using by omega
    rw [overlay, ih _ _ (by simp only [List.length_cons] at h; omega), bytes_set,
      List.set_eq_take_append_cons_drop, if_pos hoff]
    have htake : (p.bytes.take off).length = off := by simp; omega
    have hnone : (p.bytes.take off).drop (off + 1 + bs.length) = [] :=
      List.drop_eq_nil_of_le (by omega)
    have hall : (p.bytes.take off).take (off + 1) = p.bytes.take off :=
      List.take_of_length_le (by omega)
    rw [List.take_append, List.drop_append, htake, hnone, hall]
    simp [show off + 1 + bs.length - off = bs.length + 1 by omega,
      show off + (bs.length + 1) = off + 1 + bs.length by omega]

/-- The bytes of a page after others were written over a range. -/
theorem bytes_of_splice {p q : Page} {off : Nat} {bs : Bytes} (h : p.splice off bs = .ok q) :
    off + bs.length ≤ p.size ∧
      q.bytes = p.bytes.take off ++ bs ++ p.bytes.drop (off + bs.length) := by
  unfold splice at h
  split at h
  · rename_i hle
    cases h
    exact ⟨hle, bytes_overlay bs p off hle⟩
  · cases h

/-- The bytes of a page after a range was moved. -/
theorem bytes_of_slide {p q : Page} {start stop target : Nat}
    (h : p.slide start stop target = .ok q) :
    (start ≤ stop ∧ stop ≤ p.size ∧ target + (stop - start) ≤ p.size) ∧
      q.bytes = p.bytes.take target ++ (p.bytes.drop start).take (stop - start)
        ++ p.bytes.drop (target + (stop - start)) := by
  unfold slide at h
  split at h
  · rename_i hle
    cases h
    exact ⟨hle, bytes_ofBytes _⟩
  · cases h

/-- A change never alters the size of a page. -/
theorem size_of_splice {p q : Page} {off : Nat} {bs : Bytes} (h : p.splice off bs = .ok q) :
    q.size = p.size := by
  have hq := bytes_of_splice h
  have := congrArg List.length hq.2
  simp at this
  omega

theorem size_of_slide {p q : Page} {start stop target : Nat}
    (h : p.slide start stop target = .ok q) : q.size = p.size := by
  have hq := bytes_of_slide h
  have := congrArg List.length hq.2
  simp at this
  omega

end Page

/-! ### Computations on one page -/

/-- Computations that read and change one page and may fail. -/
abbrev PageM := ExceptT Failure (StateM Page)

namespace PageM

/-- A question to the page. -/
def look {α : Type} (f : Page → Except Failure α) : PageM α :=
  fun p => (f p, p)

/-- A change of the page; a change that fails leaves it as it was. -/
def change (f : Page → Except Failure Page) : PageM Unit :=
  fun p => match f p with
    | .ok q => (.ok (), q)
    | .error e => (.error e, p)

/-- The outcome of a computation on a page, and the page it leaves. -/
def runOn {α : Type} (m : PageM α) (p : Page) : Except Failure α × Page := m p

end PageM

end PageCatalog
