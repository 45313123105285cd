/-
# A reader over a byte string

A `ByteReader` walks forward over a byte string. An exact read takes the
whole field or nothing: if fewer bytes are left it answers `none`, and the
caller still holds the reader as it was. `readInto` and `skip` take what is
there instead. A `Mark` remembers a position, to come back to it or to count
the bytes read since.

Key definitions: `ByteReader`, `ByteReader.rest`, `ByteReader.readExact`,
`ByteReader.readUInt32`, `ByteReader.readUInt64`, `ByteReader.readInto`,
`ByteReader.skip`, `ByteReader.Mark`.
Key theorems: `ByteReader.readExact_eq_some_iff`, `ByteReader.rest_advance`.
-/
import HardwareSigner.Bytes.Endian

namespace HardwareSigner

/-- A byte string and how much of it has been read. -/
structure ByteReader where
  bytes : Bytes
  offset : Nat
  deriving DecidableEq

namespace ByteReader

/-- A reader at the start of a byte string. -/
def ofBytes (bytes : Bytes) : ByteReader := ⟨bytes, 0⟩

/-- The bytes that have not been read. -/
def rest (r : ByteReader) : Bytes := r.bytes.drop r.offset

/-- How many bytes have not been read. -/
def remaining (r : ByteReader) : Nat := r.bytes.length - r.offset

/-- Whether everything has been read. -/
def isEmpty (r : ByteReader) : Bool := r.remaining == 0

/-- The reader `n` bytes further on. -/
def advance (r : ByteReader) (n : Nat) : ByteReader := { r with offset := r.offset + n }

@[simp] theorem length_rest (r : ByteReader) : r.rest.length = r.remaining := List.length_drop

/-! ### Exact reads -/

/-- The next `n` bytes, if that many are left. -/
def readExact (n : Nat) (r : ByteReader) : Option (FixedBytes n × ByteReader) :=
  if h : n ≤ r.remaining then
    some (⟨r.rest.take n, by simp [h]⟩, r.advance n)
  else none

/-- The next byte. -/
def readByte (r : ByteReader) : Option (UInt8 × ByteReader) :=
  match r.rest with
  | [] => none
  | b :: _ => some (b, r.advance 1)

/-- The next four bytes as a 32-bit word. -/
def readUInt32 (e : Endian) (r : ByteReader) : Option (UInt32 × ByteReader) :=
  (r.readExact 4).map fun (bs, r) => (UInt32.ofNat (e.decode bs.toList), r)

/-- The next eight bytes as a 64-bit word. -/
def readUInt64 (e : Endian) (r : ByteReader) : Option (UInt64 × ByteReader) :=
  (r.readExact 8).map fun (bs, r) => (UInt64.ofNat (e.decode bs.toList), r)

/-! ### Reads that take what is there -/

/-- Fill a buffer from its start with as many of the next bytes as it holds,
or as are left if there are fewer; the number of bytes copied, the buffer
after it, and the reader behind the copied bytes. -/
def readInto (buffer : Bytes) (r : ByteReader) : Nat × Bytes × ByteReader :=
  let n := min buffer.length r.remaining
  (n, buffer.overwrite (r.rest.take n), r.advance n)

/-- Pass over `n` bytes, or over all that are left if there are fewer; the
number of bytes passed. -/
def skip (n : Nat) (r : ByteReader) : Nat × ByteReader :=
  let n := min n r.remaining
  (n, r.advance n)

/-! ### Marks -/

/-- A remembered position. -/
structure Mark where
  offset : Nat
  deriving DecidableEq

/-- Remember the position. -/
def mark (r : ByteReader) : Mark := ⟨r.offset⟩

/-- Go back to a remembered position. -/
def rewind (m : Mark) (r : ByteReader) : ByteReader := { r with offset := m.offset }

/-- How many bytes were read since a mark that is not ahead of the reader. -/
def consumedSince (m : Mark) (r : ByteReader) : Nat := r.offset - m.offset

/-! ### What the operations do to the rest -/

@[simp] theorem rest_ofBytes (bytes : Bytes) : (ofBytes bytes).rest = bytes := rfl

@[simp] theorem bytes_advance (r : ByteReader) (n : Nat) : (r.advance n).bytes = r.bytes := rfl

@[simp] theorem offset_advance (r : ByteReader) (n : Nat) :
    (r.advance n).offset = r.offset + n := rfl

@[simp] theorem rest_advance (r : ByteReader) (n : Nat) : (r.advance n).rest = r.rest.drop n := by
  simp [rest, advance, List.drop_drop]

@[simp] theorem remaining_advance (r : ByteReader) (n : Nat) :
    (r.advance n).remaining = r.remaining - n := by
  simp only [remaining, advance]
  omega

/-- **Exact reads are all or nothing.** A read of `n` bytes succeeds exactly
when `n` bytes are left, and then it gives the first `n` of the rest and
moves on by `n`. -/
theorem readExact_eq_some_iff {n : Nat} {r r' : ByteReader} {bs : FixedBytes n} :
    r.readExact n = some (bs, r') ↔
      n ≤ r.remaining ∧ bs.toList = r.rest.take n ∧ r' = r.advance n := by
  unfold readExact
  split
  · rename_i h
    simp only [Option.some.injEq, Prod.mk.injEq, FixedBytes.ext_iff, h, true_and]
    constructor
    · rintro ⟨h1, h2⟩; exact ⟨h1.symm, h2.symm⟩
    · rintro ⟨h1, h2⟩; exact ⟨h1.symm, h2.symm⟩
  · rename_i h
    simp [h]

theorem readExact_eq_none_iff {n : Nat} {r : ByteReader} :
    r.readExact n = none ↔ r.remaining < n := by
  unfold readExact
  split
  · rename_i h; simp only [reduceCtorEq, false_iff]; omega
  · rename_i h; simp only [true_iff]; omega

theorem readByte_eq_some_iff {r r' : ByteReader} {b : UInt8} :
    r.readByte = some (b, r') ↔ r.rest.head? = some b ∧ r' = r.advance 1 := by
  unfold readByte
  cases r.rest with
  | nil => simp
  | cons c cs => simp [eq_comm]

theorem readByte_eq_none_iff {r : ByteReader} : r.readByte = none ↔ r.rest = [] := by
  unfold readByte
  cases r.rest <;> simp

end ByteReader
end HardwareSigner
