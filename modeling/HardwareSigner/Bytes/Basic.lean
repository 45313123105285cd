/-
# Byte strings

Everything that crosses the wire is a list of bytes. Where a field has one
width (an identifier, a hash, half a signature) its type says so: a
`FixedBytes n` is a byte string of exactly `n` bytes, so no later step has to
check its length again.

Key definitions: `Bytes`, `FixedBytes`, `FixedBytes.ofList?`, `Bytes.overwrite`,
`Bytes.overwriteAt`.
Key theorems: `FixedBytes.ofList?_toList`, `Bytes.take_overwriteAt`,
`Bytes.fromUTF8?_toByteArray`.
-/
namespace HardwareSigner

/-- A byte string. -/
abbrev Bytes := List UInt8

/-- A byte string of exactly `n` bytes. -/
@[ext] structure FixedBytes (n : Nat) where
  toList : Bytes
  length_toList : toList.length = n
  deriving DecidableEq

namespace FixedBytes

/-- The string of `n` zero bytes. -/
def zero (n : Nat) : FixedBytes n := ⟨List.replicate n 0, List.length_replicate⟩

instance (n : Nat) : Inhabited (FixedBytes n) := ⟨zero n⟩

/-- A list of bytes as a string of `n` bytes, if it has that many. -/
def ofList? (n : Nat) (bs : Bytes) : Option (FixedBytes n) :=
  if h : bs.length = n then some ⟨bs, h⟩ else none

theorem ofList?_toList {n : Nat} (bs : FixedBytes n) : ofList? n bs.toList = some bs := by
  simp [ofList?, bs.length_toList]

/-- A list of bytes is a string of `n` bytes exactly when it is the list of one. -/
theorem ofList?_eq_some_iff {n : Nat} {bs : Bytes} {f : FixedBytes n} :
    ofList? n bs = some f ↔ bs = f.toList := by
  constructor
  · intro h
    unfold ofList? at h
    split at h
    · cases h; rfl
    · cases h
  · rintro rfl
    exact ofList?_toList f

end FixedBytes

namespace Bytes

/-- A buffer whose first bytes are replaced by `bs`; the rest keeps what it
held. -/
def overwrite (buffer bs : Bytes) : Bytes := bs ++ buffer.drop bs.length

theorem length_overwrite {buffer bs : Bytes} (h : bs.length ≤ buffer.length) :
    (overwrite buffer bs).length = buffer.length := by
  simp only [overwrite, List.length_append, List.length_drop]
  omega

/-- A buffer in which `bs` replaces what stands behind the first `n` bytes. -/
def overwriteAt (buffer : Bytes) (n : Nat) (bs : Bytes) : Bytes :=
  buffer.take n ++ overwrite (buffer.drop n) bs

theorem length_overwriteAt {buffer bs : Bytes} {n : Nat} (h : n + bs.length ≤ buffer.length) :
    (overwriteAt buffer n bs).length = buffer.length := by
  have hroom : bs.length ≤ (buffer.drop n).length := by
    rw [List.length_drop]
    omega
  rw [overwriteAt, List.length_append, length_overwrite hroom, ← List.length_append,
    List.take_append_drop]

/-- What was written behind the first `n` bytes stands behind them. -/
theorem take_overwriteAt {buffer bs : Bytes} {n : Nat} (h : n ≤ buffer.length) :
    (overwriteAt buffer n bs).take (n + bs.length) = buffer.take n ++ bs := by
  have hlen : (buffer.take n ++ bs).length = n + bs.length := by
    rw [List.length_append, List.length_take_of_le h]
  rw [overwriteAt, overwrite, ← List.append_assoc]
  exact List.take_left' hlen

theorem fromUTF8?_toByteArray (s : String) : String.fromUTF8? s.toByteArray = some s := by
  unfold String.fromUTF8?
  rw [dif_pos s.isValidUTF8]
  rfl

end Bytes

end HardwareSigner
