/-
# Written and read back, read and written back

A self-delimiting payload has one written form. It is written into every buffer
that has room for it and into no other, and it is read back whatever stands
behind it. The decoder takes nothing else: where it answers, the written form of
the answer is what it took. So a form that is cut anywhere is refused, and no
two byte strings are read whole as one value. All this follows from what the
decoder accepts (`Payload.SelfDelimiting.roundTrips`); what is left to say for
each payload is how long its written form is.

An opening is two such forms, one behind the other. It fits a buffer if the path
does, and the chain id what is left (`SigningOpening.encode_eq`).

Key definitions: `Payload.RoundTrips`.
Key theorems: `Payload.SelfDelimiting.roundTrips`, `SigningOpening.encode_eq`,
`Payload.round_trips_both_ways`.
-/
import HardwareSigner.Proofs.PayloadGrammar

namespace HardwareSigner

namespace Payload

open LawfulPayload

variable {α : Type} [Payload α]

theorem SelfDelimiting.decode_cut (h : SelfDelimiting α) {a : α} {cut : Bytes}
    (hcut : cut <+: bytes a) (hne : cut ≠ bytes a) : ∃ e, decode α cut = .error e := by
  cases hdecode : decode α cut with
  | error e => exact ⟨e, rfl⟩
  | ok answer =>
    obtain ⟨b, n⟩ := answer
    obtain ⟨hpre, -⟩ := (decode_eq_ok_iff h).mp hdecode
    obtain ⟨-, hsame⟩ := h.unique (a := b) (b := a) rfl rfl (hpre.trans hcut) List.prefix_rfl
    rw [hsame] at hpre
    exact absurd (hcut.eq_of_length_le hpre.length_le) hne

theorem SelfDelimiting.bytes_of_decode (h : SelfDelimiting α) {buffer : Bytes} {a : α} {n : Nat}
    (hdecode : decode α buffer = .ok (a, n)) : n ≤ buffer.length ∧ bytes a = buffer.take n := by
  obtain ⟨hpre, rfl⟩ := (decode_eq_ok_iff h).mp hdecode
  exact ⟨hpre.length_le, List.prefix_iff_eq_take.mp hpre⟩

/-- Each value has one written form, of the given length. It is written exactly
into the buffers that have room for it, and read exactly where it stands. -/
structure RoundTrips (α : Type) [Payload α] (length : α → Nat) : Prop where
  length_bytes : ∀ a : α, (bytes a).length = length a
  encodedLength_eq : ∀ a : α, encodedLength a = length a
  encode_eq : ∀ (a : α) (capacity : Nat), encode a capacity =
    if length a ≤ capacity then .ok (bytes a) else .error .invalidLength
  decode_append : ∀ (a : α) (tail : Bytes), decode α (bytes a ++ tail) = .ok (a, length a)
  decode_cut : ∀ (a : α) (cut : Bytes), cut <+: bytes a → cut ≠ bytes a →
    ∃ e, decode α cut = .error e
  bytes_of_decode : ∀ (buffer : Bytes) (a : α) (n : Nat), decode α buffer = .ok (a, n) →
    n ≤ buffer.length ∧ bytes a = buffer.take n
  eq_of_decode : ∀ (bs bs' : Bytes) (a : α), decode α bs = .ok (a, bs.length) →
    decode α bs' = .ok (a, bs'.length) → bs = bs'

/-- **A payload that is read just where it is written goes both ways.** -/
theorem SelfDelimiting.roundTrips [LawfulPayload α] (h : SelfDelimiting α) {length : α → Nat}
    (hlength : ∀ a : α, (bytes a).length = length a) : RoundTrips α length where
  length_bytes := hlength
  encodedLength_eq a := by rw [encodedLength_eq, hlength]
  encode_eq a capacity := by rw [encode_eq, hlength]
  decode_append a tail := by rw [Payload.decode_append h a tail, hlength]
  decode_cut _ _ hcut hne := h.decode_cut hcut hne
  bytes_of_decode _ _ _ hdecode := h.bytes_of_decode hdecode
  eq_of_decode bs bs' a hbs hbs' := by
    obtain ⟨-, hwritten⟩ := h.bytes_of_decode hbs
    obtain ⟨-, hwritten'⟩ := h.bytes_of_decode hbs'
    rw [List.take_length] at hwritten hwritten'
    exact hwritten.symm.trans hwritten'

end Payload

open Payload LawfulPayload

/-! ### How long each payload is, and how it is written -/

instance : LawfulPayload Address where
  encodedLength_eq a := a.length_bytes.symm
  encode_eq a := put_eq a.length_bytes.symm

instance : LawfulPayload AddressReply where
  encodedLength_eq m := encodedLength_eq m.address
  encode_eq m := encode_eq m.address

theorem DerivationPath.encodedLength_eq (path : DerivationPath) :
    path.encodedLength = path.bytes.length := by
  rw [path.length_bytes, Nat.mul_comm]
  rfl

instance : LawfulPayload DerivationPath where
  encodedLength_eq := DerivationPath.encodedLength_eq
  encode_eq path := put_eq path.encodedLength_eq

instance : LawfulPayload AddressRequest where
  encodedLength_eq m := m.path.encodedLength_eq
  encode_eq m := encode_eq m.path

instance : LawfulPayload ChainId where
  encodedLength_eq c := c.length_framed.symm
  encode_eq c := put_eq c.length_framed.symm

instance : LawfulPayload VersionRequest where
  encodedLength_eq _ := rfl
  encode_eq _ _ := (if_pos (Nat.zero_le _)).symm

instance : LawfulPayload VersionReply where
  encodedLength_eq _ := rfl
  encode_eq _ := put_eq rfl

instance : LawfulPayload NameRequest where
  encodedLength_eq _ := rfl
  encode_eq _ _ := (if_pos (Nat.zero_le _)).symm

instance : LawfulPayload NameReply where
  encodedLength_eq _ := rfl
  encode_eq _ := put_eq rfl

theorem Signature.length_bytes (m : Signature) : m.bytes.length = Signature.length := by
  simp [Signature.bytes, m.r.length_toList, m.s.length_toList, Signature.length]

instance : LawfulPayload Signature where
  encodedLength_eq m := m.length_bytes.symm
  encode_eq m := put_eq m.length_bytes.symm

theorem SigningOpening.length_bytes (m : SigningOpening) : (bytes m).length =
    1 + 4 * m.path.components.length + (4 + m.chainId.bytes.length) := by
  show (m.path.bytes ++ m.chainId.framed).length = _
  rw [List.length_append, m.path.length_bytes, m.chainId.length_framed]

/-- The path and then, into what it leaves of the buffer, the chain id are
written exactly if the buffer has room for both. -/
theorem SigningOpening.encode_eq (m : SigningOpening) (capacity : Nat) :
    encode m capacity =
      if (bytes m).length ≤ capacity then .ok (bytes m) else .error .invalidLength := by
  have hlength : (bytes m).length = (bytes m.path).length + (bytes m.chainId).length :=
    List.length_append
  show (encode m.path capacity).bind (fun path =>
    (encode m.chainId (capacity - path.length)).bind fun chainId => .ok (path ++ chainId)) = _
  rw [LawfulPayload.encode_eq m.path]
  by_cases hpath : (bytes m.path).length ≤ capacity
  · rw [if_pos hpath]
    show (encode m.chainId (capacity - (bytes m.path).length)).bind _ = _
    rw [LawfulPayload.encode_eq m.chainId]
    by_cases hchainId : (bytes m.chainId).length ≤ capacity - (bytes m.path).length
    · rw [if_pos hchainId, if_pos (by omega)]
      rfl
    · rw [if_neg hchainId, if_neg (by omega)]
      rfl
  · rw [if_neg hpath, if_neg (by omega)]
    rfl

instance : LawfulPayload SigningOpening where
  encodedLength_eq m := by
    show m.path.encodedLength + m.chainId.encodedLength = (m.path.bytes ++ m.chainId.framed).length
    rw [List.length_append, m.path.encodedLength_eq, m.chainId.length_framed]
    rfl
  encode_eq := SigningOpening.encode_eq

/-- **The self-delimiting payloads go both ways.** Each of them has one written
form, whose length is told by the value. It is written if and only if the buffer
has room for it; it is read back with anything behind it, and refused if it is
cut; and what is read is written back as the bytes that were taken. An opening
is written as its two parts, the second into what the first leaves. -/
theorem Payload.round_trips_both_ways :
    RoundTrips Address (fun _ => 21) ∧
    RoundTrips AddressRequest (fun m => 1 + 4 * m.path.components.length) ∧
    RoundTrips AddressReply (fun _ => 21) ∧
    RoundTrips VersionReply (fun _ => 3) ∧
    RoundTrips DerivationPath (fun path => 1 + 4 * path.components.length) ∧
    RoundTrips ChainId (fun c => 4 + c.bytes.length) ∧
    RoundTrips SigningOpening
      (fun m => 1 + 4 * m.path.components.length + (4 + m.chainId.bytes.length)) ∧
    RoundTrips Signature (fun _ => 65) ∧
    ∀ (m : SigningOpening) (capacity : Nat), encode m capacity = do
      let path ← encode m.path capacity
      let chainId ← encode m.chainId (capacity - path.length)
      return path ++ chainId := by
  refine ⟨?_, ?_, ?_, ?_, ?_, ?_, ?_, ?_, fun _ _ => rfl⟩
  · exact Address.selfDelimiting.roundTrips Address.length_bytes
  · exact AddressRequest.selfDelimiting.roundTrips fun m => m.path.length_bytes
  · exact AddressReply.selfDelimiting.roundTrips fun m => m.address.length_bytes
  · exact VersionReply.selfDelimiting.roundTrips fun _ => rfl
  · exact DerivationPath.selfDelimiting.roundTrips DerivationPath.length_bytes
  · exact ChainId.selfDelimiting.roundTrips ChainId.length_framed
  · exact SigningOpening.selfDelimiting.roundTrips SigningOpening.length_bytes
  · exact Signature.selfDelimiting.roundTrips Signature.length_bytes

end HardwareSigner
