/-
# What is sent, and what may be

A message is legal as it is sent if it has the length it tells, no more bytes
than a command carries, and the other side reads it back whole
(`Payload.Legal`). The messages with short fields cannot be written otherwise:
the longest, an opening, has at most 72 bytes. Two messages carry as much as they are
given, and what limits them when they are read and when they are sent is not
the same:

* a chunk without bytes is written into every buffer, and refused by the
  other side;
* a name is written into every buffer that has room for it. It is read back, but
  it may have more bytes than a command carries.

These are all the illegal messages that are sent (`Payload.sendsLegal_iff`).

Key definitions: `Payload.Legal`, `Payload.SendsLegal`.
Key theorems: `Payload.SelfDelimiting.sendsLegal`, `NameReply.sendsLegal_iff_le`,
`SigningChunk.sendsLegal_iff_ne_nil`, `Payload.sendsLegal_iff`,
`Payload.illegal_messages_are_sent`.
-/
import HardwareSigner.Proofs.RoundTrips

namespace HardwareSigner

namespace Payload

variable {α : Type} [Payload α]

theorem encode_eq_ok_iff [LawfulPayload α] {a : α} {capacity : Nat} {bs : Bytes} :
    encode a capacity = .ok bs ↔ (bytes a).length ≤ capacity ∧ bs = bytes a := by
  rw [LawfulPayload.encode_eq]
  by_cases h : (bytes a).length ≤ capacity <;> simp [h, eq_comm]

/-- `bs` is a legal payload for `m`, and the other side reads it as `read`. -/
structure Legal (m read : α) (bs : Bytes) : Prop where
  length_eq : bs.length = encodedLength m
  length_le : bs.length ≤ Command.maxPayload
  decode_eq : decode α bs = .ok (read, bs.length)

/-- If `m` is written into a buffer of this size at all, then as a legal payload. -/
def SendsLegal (m read : α) (capacity : Nat) : Prop :=
  ∀ bs, encode m capacity = .ok bs → Legal m read bs

/-- Messages with short fields are legal into whatever buffer they are written. -/
theorem SelfDelimiting.sendsLegal [LawfulPayload α] (h : SelfDelimiting α) {m : α}
    (hle : (bytes m).length ≤ Command.maxPayload) (capacity : Nat) : SendsLegal m m capacity := by
  intro bs hencode
  obtain ⟨-, rfl⟩ := encode_eq_ok_iff.mp hencode
  exact ⟨(LawfulPayload.encodedLength_eq m).symm, hle, decode_bytes h m⟩

end Payload

open Payload

/-! ### How long messages get -/

theorem AddressRequest.length_bytes_le (m : AddressRequest) :
    (bytes m).length ≤ Command.maxPayload := by
  have hlength : (bytes m).length = 1 + 4 * m.path.components.length := m.path.length_bytes
  have hten := m.path.length_le_ten
  show _ ≤ 255
  omega

theorem SigningOpening.length_bytes_le (m : SigningOpening) :
    (bytes m).length ≤ Command.maxPayload := by
  have hlength := m.length_bytes
  have hten := m.path.length_le_ten
  have hmost := m.chainId.length_le_twentySeven
  show _ ≤ 255
  omega

/-! ### Messages that carry what they are given -/

/-- A name is sent as a legal payload unless a larger buffer lets a longer one
through. -/
theorem NameReply.sendsLegal_iff_le (m : NameReply) (capacity : Nat) : SendsLegal m m capacity ↔
    (m.name.utf8ByteSize ≤ capacity → m.name.utf8ByteSize ≤ 255) := by
  constructor
  · intro h hfits
    exact (h m.bytes (encode_eq_ok_iff.mpr ⟨hfits, rfl⟩)).length_le
  · intro h bs hencode
    obtain ⟨hfits, rfl⟩ := encode_eq_ok_iff.mp hencode
    exact ⟨rfl, h hfits, m.decode_bytes⟩

theorem SigningChunk.encode_eq_ok_iff {m : SigningChunk} {capacity : Nat} {bs : Bytes} :
    encode m capacity = .ok bs ↔
      m.data.length ≤ min capacity Command.maxPayload ∧ bs = m.data := by
  show (if m.data.length > Command.maxPayload || capacity < m.data.length then
    .error .invalidLength else .ok m.data : Except PayloadError Bytes) = .ok bs ↔ _
  by_cases hle : m.data.length ≤ min capacity Command.maxPayload
  · obtain ⟨hfits, hmost⟩ := Nat.le_min.mp hle
    rw [if_neg (by simpa using ⟨hmost, hfits⟩), Except.ok.injEq, and_iff_right hle, eq_comm]
  · have hfull : m.data.length > Command.maxPayload ∨ capacity < m.data.length := by
      rw [Nat.le_min] at hle
      omega
    rw [if_pos (by simpa using hfull)]
    simp [hle]

theorem SigningChunk.sendsLegal_iff_ne_nil (m : SigningChunk) (capacity : Nat) :
    SendsLegal m { m with more := false } capacity ↔ m.data ≠ [] := by
  constructor
  · intro h hnil
    have hlegal := h _ (SigningChunk.encode_eq_ok_iff.mpr ⟨by simp [hnil], rfl⟩)
    have hrefused : decode SigningChunk m.data = .error .invalidLength :=
      decode_refused (.inl hnil)
    cases hrefused.symm.trans hlegal.decode_eq
  · intro hne bs hencode
    obtain ⟨hfits, rfl⟩ := SigningChunk.encode_eq_ok_iff.mp hencode
    have hle : m.data.length ≤ Command.maxPayload := Nat.le_trans hfits (Nat.min_le_right _ _)
    exact ⟨rfl, hle, decode_data hne hle⟩

theorem SigningChunk.parse_header (m : SigningChunk) :
    Command.parse m.header = .ok (.signTx false m.more) := by
  obtain ⟨data, more⟩ := m
  cases more <;> rfl

/-- **Which messages are legal as they are sent.** Into a buffer of any size,
requests for the version, the name or an address, their replies other than a
name, openings and signatures are sent as legal payloads that are read back. A
name is, exactly if the buffer does not let through more than 255 bytes of it; it is
read back in any case. A chunk is, exactly if it is not empty, and its header tells
whether more follow; an empty one is written into every buffer and refused. -/
theorem Payload.sendsLegal_iff (capacity : Nat) :
    (∀ m : AddressRequest, SendsLegal m m capacity) ∧
    (∀ m : AddressReply, SendsLegal m m capacity) ∧
    (∀ m : VersionRequest, SendsLegal m m capacity) ∧
    (∀ m : VersionReply, SendsLegal m m capacity) ∧
    (∀ m : NameRequest, SendsLegal m m capacity) ∧
    (∀ m : NameReply, SendsLegal m m capacity ↔
      (m.name.utf8ByteSize ≤ capacity → m.name.utf8ByteSize ≤ 255)) ∧
    (∀ m : SigningOpening, SendsLegal m m capacity) ∧
    (∀ m : SigningChunk, SendsLegal m { m with more := false } capacity ↔ m.data ≠ []) ∧
    (∀ m : Signature, SendsLegal m m capacity) ∧
    (∀ (m : NameReply) (bs : Bytes), encode m capacity = .ok bs →
      bs.length = encodedLength m ∧ decode NameReply bs = .ok (m, bs.length)) ∧
    (∀ m : SigningChunk, Command.parse m.header = .ok (.signTx false m.more)) ∧
    (∀ more : Bool, encode (⟨[], more⟩ : SigningChunk) capacity = .ok []) ∧
    decode SigningChunk [] = .error .invalidLength := by
  refine ⟨fun m => ?_, fun m => ?_, fun m => ?_, fun m => ?_, fun m => ?_, fun m => ?_, fun m => ?_,
    fun m => ?_, fun m => ?_, fun m bs hencode => ?_, fun m => ?_, fun more => ?_, ?_⟩
  · exact AddressRequest.selfDelimiting.sendsLegal m.length_bytes_le capacity
  · have hlength : (bytes m).length = 21 := m.address.length_bytes
    exact AddressReply.selfDelimiting.sendsLegal (by rw [hlength]; decide) capacity
  · exact VersionRequest.selfDelimiting.sendsLegal (Nat.zero_le _) capacity
  · have hlength : (bytes m).length = 3 := rfl
    exact VersionReply.selfDelimiting.sendsLegal (by rw [hlength]; decide) capacity
  · exact NameRequest.selfDelimiting.sendsLegal (Nat.zero_le _) capacity
  · exact m.sendsLegal_iff_le capacity
  · exact SigningOpening.selfDelimiting.sendsLegal m.length_bytes_le capacity
  · exact m.sendsLegal_iff_ne_nil capacity
  · have hlength : (bytes m).length = 65 := m.length_bytes
    exact Signature.selfDelimiting.sendsLegal (by rw [hlength]; decide) capacity
  · obtain ⟨-, rfl⟩ := encode_eq_ok_iff.mp hencode
    exact ⟨rfl, m.decode_bytes⟩
  · exact m.parse_header
  · exact SigningChunk.encode_eq_ok_iff.mpr ⟨Nat.zero_le _, rfl⟩
  · exact SigningChunk.decode_refused (.inl rfl)

/-- An empty chunk that more follow, and a name of 256 letters into a buffer of
300 bytes, are sent and are not legal. -/
theorem Payload.illegal_messages_are_sent :
    ¬SendsLegal (⟨[], true⟩ : SigningChunk) ⟨[], false⟩ 255 ∧
    ¬SendsLegal (⟨String.ofList (List.replicate 256 'a')⟩ : NameReply)
      ⟨String.ofList (List.replicate 256 'a')⟩ 300 := by
  have hsize : (String.ofList (List.replicate 256 'a')).utf8ByteSize = 256 := by decide +kernel
  constructor
  · exact fun h => (SigningChunk.sendsLegal_iff_ne_nil _ _).mp h rfl
  · intro h
    have hle := (NameReply.sendsLegal_iff_le _ _).mp h
    simp only [hsize] at hle
    omega

end HardwareSigner
