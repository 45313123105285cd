/-
# Integers as bytes

An integer of a given width is written with its most significant byte first
(`big`) or last (`little`). `Endian.encode` writes the low `width` bytes of a
number and `Endian.decode` reads any byte string back; each undoes the other
(`decode_encode`, `encode_decode`), so equal encodings of one width mean equal
numbers below `256 ^ width`.

Key definitions: `Endian.encode`, `Endian.decode`, `be32`, `be64`, `words`.
Key theorems: `Endian.decode_encode`, `Endian.encode_decode`,
`Endian.decode_lt`, `length_words`, `words_be32_append`.
-/
import HardwareSigner.Bytes.Basic

namespace HardwareSigner

/-- The `width` low bytes of `n`, most significant first. -/
def bigEndian : (width n : Nat) → Bytes
  | 0, _ => []
  | width + 1, n => bigEndian width (n / 256) ++ [UInt8.ofNat n]

/-- The number whose bytes, most significant first, are `bs`. -/
def ofBigEndian (bs : Bytes) : Nat := bs.foldl (fun n b => n * 256 + b.toNat) 0

/-- Which end of an integer comes first on the wire. -/
inductive Endian
  | big
  | little
  deriving DecidableEq, Repr

namespace Endian

/-- The `width` low bytes of `n` in this byte order. -/
def encode : Endian → (width n : Nat) → Bytes
  | big, width, n => bigEndian width n
  | little, width, n => (bigEndian width n).reverse

/-- The number that the bytes `bs` spell in this byte order. -/
def decode : Endian → Bytes → Nat
  | big, bs => ofBigEndian bs
  | little, bs => ofBigEndian bs.reverse

end Endian

/-- A 32-bit word as four bytes, most significant first. -/
def be32 (n : UInt32) : Bytes := bigEndian 4 n.toNat

/-- A 64-bit word as eight bytes, most significant first. -/
def be64 (n : UInt64) : Bytes := bigEndian 8 n.toNat

/-- The 32-bit words of a byte string, four bytes each and most significant
first; up to three bytes left over are dropped. -/
def words : Bytes → List UInt32
  | a :: b :: c :: d :: rest => UInt32.ofNat (ofBigEndian [a, b, c, d]) :: words rest
  | _ => []

/-! ### Widths and round trips -/

@[simp] theorem length_bigEndian (width n : Nat) : (bigEndian width n).length = width := by
  induction width generalizing n with
  | zero => rfl
  | succ width ih => simp [bigEndian, ih]

theorem ofBigEndian_append_singleton (bs : Bytes) (b : UInt8) :
    ofBigEndian (bs ++ [b]) = ofBigEndian bs * 256 + b.toNat := by
  simp [ofBigEndian]

theorem ofBigEndian_lt (bs : Bytes) : ofBigEndian bs < Nat.pow 256 bs.length := by
  induction hn : bs.length generalizing bs with
  | zero =>
    rw [List.eq_nil_of_length_eq_zero hn]
    decide
  | succ n ih =>
    have hne : bs ≠ [] := fun h => by simp [h] at hn
    rw [← List.dropLast_concat_getLast hne, ofBigEndian_append_singleton]
    have h := ih bs.dropLast (by simp [hn])
    have hb := (bs.getLast hne).toNat_lt
    have hpow : Nat.pow 256 (n + 1) = Nat.pow 256 n * 256 := rfl
    omega

/-- Reading the `width` low bytes of a number gives it modulo `256 ^ width`. -/
theorem ofBigEndian_bigEndian (width n : Nat) :
    ofBigEndian (bigEndian width n) = n % Nat.pow 256 width := by
  induction width generalizing n with
  | zero => exact (Nat.mod_one n).symm
  | succ width ih =>
    have hpow : Nat.pow 256 (width + 1) = 256 * Nat.pow 256 width := Nat.mul_comm _ _
    have hmod : n % Nat.pow 256 (width + 1) = n % 256 + 256 * (n / 256 % Nat.pow 256 width) := by
      rw [hpow, Nat.mod_mul]
    rw [bigEndian, ofBigEndian_append_singleton, ih, UInt8.toNat_ofNat', hmod]
    omega

theorem bigEndian_ofBigEndian (bs : Bytes) : bigEndian bs.length (ofBigEndian bs) = bs := by
  induction hn : bs.length generalizing bs with
  | zero => rw [List.eq_nil_of_length_eq_zero hn]; rfl
  | succ n ih =>
    have hne : bs ≠ [] := fun h => by simp [h] at hn
    have hl : bs.dropLast.length = n := by simp [hn]
    have hb := (bs.getLast hne).toNat_lt
    have hs : bs = bs.dropLast ++ [bs.getLast hne] := (List.dropLast_concat_getLast hne).symm
    have hv : ofBigEndian bs = ofBigEndian bs.dropLast * 256 + (bs.getLast hne).toNat := by
      conv => lhs; rw [hs]
      exact ofBigEndian_append_singleton _ _
    have hq : ofBigEndian bs / 256 = ofBigEndian bs.dropLast := by omega
    have hr : UInt8.ofNat (ofBigEndian bs) = bs.getLast hne := by
      apply UInt8.toNat_inj.mp
      rw [UInt8.toNat_ofNat']
      omega
    rw [bigEndian, hq, hr, ih bs.dropLast hl, List.dropLast_concat_getLast]

namespace Endian

@[simp] theorem length_encode (e : Endian) (width n : Nat) : (e.encode width n).length = width := by
  cases e <;> simp [encode]

theorem decode_lt (e : Endian) (bs : Bytes) : e.decode bs < Nat.pow 256 bs.length := by
  cases e
  · exact ofBigEndian_lt bs
  · simpa [decode] using ofBigEndian_lt bs.reverse

/-- Reading the `width` low bytes of a number gives it modulo `256 ^ width`,
in either byte order. -/
theorem decode_encode (e : Endian) (width n : Nat) :
    e.decode (e.encode width n) = n % Nat.pow 256 width := by
  cases e <;> simp [encode, decode, ofBigEndian_bigEndian]

/-- Writing the number that a byte string spells gives the string again, in
either byte order. -/
theorem encode_decode (e : Endian) (bs : Bytes) : e.encode bs.length (e.decode bs) = bs := by
  cases e
  · exact bigEndian_ofBigEndian bs
  · have h := congrArg List.reverse (bigEndian_ofBigEndian bs.reverse)
    simpa [encode, decode] using h

end Endian

@[simp] theorem length_be32 (n : UInt32) : (be32 n).length = 4 := length_bigEndian 4 _

@[simp] theorem length_be64 (n : UInt64) : (be64 n).length = 8 := length_bigEndian 8 _

/-! ### Words -/

/-- A byte string of `4 * k` bytes, up to three more, holds `k` words. -/
theorem length_words (bs : Bytes) : (words bs).length = bs.length / 4 := by
  fun_induction words bs with
  | case1 a b c d rest ih => simp only [List.length_cons, ih]; omega
  | case2 bs h =>
    match bs with
    | [] => rfl
    | [_] | [_, _] | [_, _, _] => simp
    | a :: b :: c :: d :: rest => exact absurd rfl (h a b c d rest)

/-- The words of a word's four bytes and what follows are that word and the
words that follow. -/
theorem words_be32_append (n : UInt32) (bs : Bytes) : words (be32 n ++ bs) = n :: words bs := by
  have h : ofBigEndian (be32 n) = n.toNat := by
    rw [be32, ofBigEndian_bigEndian]
    exact Nat.mod_eq_of_lt n.toNat_lt
  have hl := length_be32 n
  match hb : be32 n with
  | [a, b, c, d] =>
    rw [hb] at h
    simp [words, h]
  | [] | [_] | [_, _] | [_, _, _] | _ :: _ :: _ :: _ :: _ :: _ => simp [hb] at hl

end HardwareSigner
