/-
# Payloads are read back as they are written

The decoder of a self-delimiting payload accepts just the payload's written
form (`Payload.SelfDelimiting`): whatever stands behind it, the value is read
back and nothing behind it is taken (`Payload.decode_append`). Paths and chain
ids, which tell their own length, are of this kind, and so are the messages
made of them and all messages of one width. A name and a chunk are not: each is
its whole payload.

Key definitions: `Payload.SelfDelimiting`.
Key theorems: `Payload.decode_append`, `Payload.decode_bytes`,
`Payload.decode_eq_ok_iff`, `DerivationPath.accepts_decoder`,
`ChainId.accepts_decoder`, `SigningOpening.selfDelimiting`,
`Signature.selfDelimiting`, `NameReply.decode_bytes`,
`SigningChunk.decode_data`, `SigningChunk.decode_refused`.
-/
import HardwareSigner.Apdu.Message
import HardwareSigner.Proofs.Grammar

namespace HardwareSigner

open Decoder ByteReader

namespace Payload

variable {α : Type} [Payload α]

/-- A payload's decoder reads its written form, and nothing else. -/
def SelfDelimiting (α : Type) [Payload α] : Prop :=
  (decoder : Decoder PayloadError α).Accepts fun a bs => bs = bytes a

/-- **A payload is read back** with anything behind it. -/
theorem decode_append (h : SelfDelimiting α) (a : α) (tail : Bytes) :
    decode α (bytes a ++ tail) = .ok (a, (bytes a).length) := by
  have hrun := h.run_append (a := a) rfl tail
  simp only [decode, hrun, offset_advance]
  simp [ofBytes]

theorem decode_bytes (h : SelfDelimiting α) (a : α) :
    decode α (bytes a) = .ok (a, (bytes a).length) := by
  have happend := decode_append h a []
  rwa [List.append_nil] at happend

/-- A value is read, and so many bytes are taken for it, exactly where it is
written with so many bytes. -/
theorem decode_eq_ok_iff (h : SelfDelimiting α) {buffer : Bytes} {a : α} {n : Nat} :
    decode α buffer = .ok (a, n) ↔ bytes a <+: buffer ∧ n = (bytes a).length := by
  constructor
  · intro hdecode
    unfold decode at hdecode
    split at hdecode
    · rename_i b r hrun
      obtain ⟨_, rfl, hpre, rfl⟩ := (h _ _ _).mp hrun
      simp only [Except.ok.injEq, Prod.mk.injEq] at hdecode
      obtain ⟨rfl, rfl⟩ := hdecode
      exact ⟨hpre, Nat.zero_add _⟩
    · cases hdecode
  · rintro ⟨⟨tail, rfl⟩, rfl⟩
    exact decode_append h a tail

/-- A payload that is the whole buffer is read, or refused, by its bytes alone. -/
theorem decode_of_takeRest (answer : Except PayloadError α)
    {read : Bytes → Decoder PayloadError α}
    (hdecoder : (decoder : Decoder PayloadError α) = takeRest >>= read) {buffer : Bytes}
    (hread : ∀ r, (read buffer).run r = (answer, r)) :
    decode α buffer = answer.map fun a => (a, buffer.length) := by
  have hrun : (decoder : Decoder PayloadError α).run (ofBytes buffer) =
      (answer, (ofBytes buffer).advance buffer.length) := by
    rw [hdecoder, bind_ok (run_takeRest _), rest_ofBytes, hread]
    rfl
  unfold decode
  rw [hrun]
  cases answer with
  | ok a => simp [Except.map, ofBytes]
  | error e => rfl

end Payload

/-! ### Derivation paths -/

namespace DerivationPath

theorem length_bytes (path : DerivationPath) :
    path.bytes.length = 1 + 4 * path.components.length := by
  rw [bytes, List.length_cons, length_flatMap_be32, Nat.add_comm]

theorem toNat_ofNat_length (path : DerivationPath) :
    (UInt8.ofNat path.components.length).toNat = path.components.length :=
  UInt8.toNat_ofNat_of_lt' (Nat.lt_of_le_of_lt path.length_le_ten (by decide))

theorem accepts_decoder : decoder.Accepts fun path bs => bs = path.bytes := by
  refine ((accepts_field isField_readByte).bind fun count =>
    accepts_dite (fun _ => (accepts_field (isField_readExact _)).bind fun _ => accepts_pure _)
      fun _ => accepts_fail _).congr fun path bs => ?_
  constructor
  · rintro ⟨count, _, _, rfl, ⟨_, components, _, _, rfl, ⟨rfl, rfl⟩, rfl⟩ | ⟨_, hfalse⟩, rfl⟩
    · have hlen := components.length_toList
      have hcount : (words components.toList).length = count.toNat := by
        rw [length_words, hlen, Nat.mul_div_cancel_left _ (by decide)]
      rw [bytes, hcount, UInt8.ofNat_toNat, flatMap_be32_words _ (by omega), List.append_nil]
      rfl
    · exact hfalse.elim
  · rintro rfl
    have hcount := path.toNat_ofNat_length
    have hle : (UInt8.ofNat path.components.length).toNat ≤ maxLength := by
      rw [hcount]
      exact path.length_le
    refine ⟨UInt8.ofNat path.components.length, _, _, rfl, .inl ⟨hle,
      ⟨path.components.flatMap be32, by rw [length_flatMap_be32, hcount]⟩, _, _, rfl,
      ⟨?_, rfl⟩, (List.append_nil _).symm⟩, rfl⟩
    exact DerivationPath.ext (words_flatMap_be32 _).symm

end DerivationPath

/-! ### Chain ids -/

namespace ChainId

theorem length_framed (c : ChainId) : c.framed.length = 4 + c.bytes.length := by
  simp [framed, lengthBytes]

theorem toNat_ofNat_length (c : ChainId) :
    (UInt32.ofNat c.bytes.length).toNat = c.bytes.length :=
  UInt32.toNat_ofNat_of_lt' (Nat.lt_of_le_of_lt c.length_le_twentySeven (by decide))

theorem accepts_decoder : decoder.Accepts fun c bs => bs = c.framed := by
  refine ((accepts_field (isField_readUInt32 .big)).bind fun length =>
    accepts_dite (fun _ => (accepts_field (isField_readExact _)).bind fun _ => accepts_pure _)
      fun _ => accepts_fail _).congr fun c bs => ?_
  constructor
  · rintro ⟨length, _, _, rfl, ⟨_, text, _, _, rfl, ⟨rfl, rfl⟩, rfl⟩ | ⟨_, hfalse⟩, rfl⟩
    · rw [framed, lengthBytes, text.length_toList, UInt32.ofNat_toNat, List.append_nil]
      rfl
    · exact hfalse.elim
  · rintro rfl
    have hlength := c.toNat_ofNat_length
    have hle : (UInt32.ofNat c.bytes.length).toNat ≤ maxLength := by
      rw [hlength]
      exact c.length_le
    exact ⟨UInt32.ofNat c.bytes.length, _, _, rfl, .inl ⟨hle, ⟨c.bytes, hlength.symm⟩, _, _, rfl,
      ⟨rfl, rfl⟩, (List.append_nil _).symm⟩, rfl⟩

end ChainId

/-! ### Messages -/

/-- A value that wraps another one is read where that one is. -/
theorem Decoder.Accepts.wrap {ε α β : Type} {d : Decoder ε α} {written : α → Bytes}
    (hd : d.Accepts fun a bs => bs = written a) {wrap : α → β} (inner : β → α)
    (hinner : ∀ a, inner (wrap a) = a) (hwrap : ∀ b, wrap (inner b) = b) :
    (d >>= fun a => pure (wrap a)).Accepts fun b bs => bs = written (inner b) := by
  refine (hd.bind fun _ => accepts_pure _).congr fun b bs => ?_
  constructor
  · rintro ⟨a, _, _, rfl, ⟨rfl, rfl⟩, rfl⟩
    rw [hinner, List.append_nil]
  · rintro rfl
    exact ⟨inner b, _, _, rfl, ⟨(hwrap b).symm, rfl⟩, (List.append_nil _).symm⟩

theorem Address.selfDelimiting : Payload.SelfDelimiting Address :=
  accepts_field isField_readAddress

theorem AddressReply.selfDelimiting : Payload.SelfDelimiting AddressReply :=
  Address.selfDelimiting.wrap AddressReply.address (fun _ => rfl) fun _ => rfl

theorem DerivationPath.selfDelimiting : Payload.SelfDelimiting DerivationPath := accepts_decoder

theorem AddressRequest.selfDelimiting : Payload.SelfDelimiting AddressRequest :=
  DerivationPath.accepts_decoder.wrap AddressRequest.path (fun _ => rfl) fun _ => rfl

theorem ChainId.selfDelimiting : Payload.SelfDelimiting ChainId := accepts_decoder

theorem Decoder.Accepts.unit {ε α : Type} {a : α} (hunit : ∀ b, b = a) :
    (pure a : Decoder ε α).Accepts fun _ bs => bs = [] :=
  (accepts_pure a).congr fun b _ => and_iff_right (hunit b)

theorem VersionRequest.selfDelimiting : Payload.SelfDelimiting VersionRequest :=
  Accepts.unit fun _ => rfl

theorem NameRequest.selfDelimiting : Payload.SelfDelimiting NameRequest :=
  Accepts.unit fun _ => rfl

theorem VersionReply.selfDelimiting : Payload.SelfDelimiting VersionReply := by
  refine ((accepts_field isField_readByte).bind fun _ => (accepts_field isField_readByte).bind
    fun _ => (accepts_field isField_readByte).bind fun _ => accepts_pure _).congr fun m bs => ?_
  constructor
  · rintro ⟨major, _, _, rfl, ⟨minor, _, _, rfl, ⟨patch, _, _, rfl, ⟨rfl, rfl⟩, rfl⟩, rfl⟩, rfl⟩
    rfl
  · rintro rfl
    exact ⟨m.major, _, _, rfl, ⟨m.minor, _, _, rfl, ⟨m.patch, _, _, rfl, ⟨rfl, rfl⟩, rfl⟩, rfl⟩,
      rfl⟩

theorem SigningOpening.selfDelimiting : Payload.SelfDelimiting SigningOpening := by
  refine (DerivationPath.accepts_decoder.bind fun _ =>
    ChainId.accepts_decoder.bind fun _ => accepts_pure _).congr fun m bs => ?_
  constructor
  · rintro ⟨path, _, _, rfl, ⟨chainId, _, _, rfl, ⟨rfl, rfl⟩, rfl⟩, rfl⟩
    simp [Payload.bytes]
  · rintro rfl
    exact ⟨m.path, _, _, rfl, ⟨m.chainId, _, _, rfl, ⟨rfl, rfl⟩, rfl⟩, by simp [Payload.bytes]⟩

theorem Signature.selfDelimiting : Payload.SelfDelimiting Signature := by
  refine ((accepts_field isField_readByte).bind fun _ =>
    (accepts_field (isField_readExact 32)).bind fun _ =>
    (accepts_field (isField_readExact 32)).bind fun _ => accepts_pure _).congr fun m bs => ?_
  constructor
  · rintro ⟨id, _, _, rfl, ⟨r, _, _, rfl, ⟨s, _, _, rfl, ⟨rfl, rfl⟩, rfl⟩, rfl⟩, rfl⟩
    simp [Payload.bytes, Signature.bytes]
  · rintro rfl
    exact ⟨m.recoveryId, _, _, rfl, ⟨m.r, _, _, rfl, ⟨m.s, _, _, rfl, ⟨rfl, rfl⟩, rfl⟩, rfl⟩,
      by simp [Payload.bytes, Signature.bytes]⟩

/-- A name is its whole payload, of any length, and it is read back. -/
theorem NameReply.decode_bytes (m : NameReply) :
    Payload.decode NameReply m.bytes = .ok (m, m.bytes.length) := by
  have hname : String.fromUTF8? ⟨m.bytes.toArray⟩ = some m.name :=
    Bytes.fromUTF8?_toByteArray m.name
  refine Payload.decode_of_takeRest (.ok m) rfl fun r => ?_
  rw [hname]
  rfl

/-- A chunk is read as its whole payload, which may not be empty or longer
than a command carries. -/
theorem SigningChunk.decode_data {data : Bytes} (hdata : data ≠ [])
    (hle : data.length ≤ Command.maxPayload) :
    Payload.decode SigningChunk data = .ok (⟨data, false⟩, data.length) := by
  have haccepted : (data.isEmpty || decide (data.length > Command.maxPayload)) = false := by
    simpa using ⟨hdata, hle⟩
  refine Payload.decode_of_takeRest (.ok (⟨data, false⟩ : SigningChunk)) rfl fun r => ?_
  rw [haccepted]
  rfl

theorem SigningChunk.decode_refused {data : Bytes}
    (h : data = [] ∨ Command.maxPayload < data.length) :
    Payload.decode SigningChunk data = .error .invalidLength := by
  have hrefused : (data.isEmpty || decide (data.length > Command.maxPayload)) = true := by
    simpa using h
  refine Payload.decode_of_takeRest (.error .invalidLength) rfl fun r => ?_
  rw [hrefused]
  rfl

end HardwareSigner
