import Std.Data.TreeMap

/-!
Files with holes.

A file is kept as its size and the blocks that something was written to; every
byte outside of them is zero. A file with one byte far out takes one block.

* `SparseFile`, `SparseFile.block`: a file, and the bytes of one of its blocks.
* `SparseFile.read`, `SparseFile.write`: a range of bytes, cut at the end of the
  file, and new bytes over old ones, growing the file as far as needed.
* `SparseFile.ofBytes`, `SparseFile.toBytes`: the whole content.
-/

namespace PageCatalog

/-- A file with holes. -/
structure SparseFile where
  size : Nat := 0
  blocks : Std.TreeMap Nat ByteArray := .empty

namespace SparseFile

/-- Bytes of a block. -/
def blockSize : Nat := 4096

/-- The bytes of block `i`, full of zeros if nothing was written to it. -/
def block (file : SparseFile) (i : Nat) : ByteArray :=
  file.blocks[i]?.getD ⟨Array.replicate blockSize 0⟩

/-- The numbers of the blocks that the bytes from `start` to `stop` lie in. -/
def touched (start stop : Nat) : List Nat :=
  if stop ≤ start then []
  else List.range' (start / blockSize) ((stop - 1) / blockSize + 1 - start / blockSize)

/-- The bytes from `pos` on, at most `len`, cut at the end of the file. -/
def read (file : SparseFile) (pos len : Nat) : ByteArray :=
  let stop := min (pos + len) file.size
  let base := pos / blockSize * blockSize
  let bytes := (touched pos stop).foldl (fun bytes i => bytes ++ file.block i) .empty
  bytes.extract (pos - base) (stop - base)

/-- The block that starts at `base`, with the part of `bytes` written over it that
falls into it when `bytes` lies at `pos`. -/
def patch (block : ByteArray) (base pos : Nat) (bytes : ByteArray) : ByteArray :=
  let start := max pos base
  let stop := min (pos + bytes.size) (base + blockSize)
  bytes.copySlice (start - pos) block (start - base) (stop - start)

/-- The file with `bytes` written at `pos`. A write of nothing does not make a file
longer. -/
def write (file : SparseFile) (pos : Nat) (bytes : ByteArray) : SparseFile :=
  if bytes.size = 0 then file
  else
    let blocks := (touched pos (pos + bytes.size)).foldl (fun blocks i =>
      blocks.insert i (patch (file.block i) (i * blockSize) pos bytes)) file.blocks
    { size := max file.size (pos + bytes.size), blocks }

/-- A file with given content. -/
def ofBytes (bytes : ByteArray) : SparseFile := write {} 0 bytes

/-- The whole content of a file. -/
def toBytes (file : SparseFile) : ByteArray := file.read 0 file.size

end SparseFile

end PageCatalog
