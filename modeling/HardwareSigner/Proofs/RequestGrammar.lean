/-
# What payloads ask for

A command's payload makes a request, or it is refused, and both are told by the
lengths that stand in the payload. A path is a count of at most ten and as many
words behind it; a chain id is a length of at most twenty-seven and as many
bytes behind it. What follows is ignored. A chunk is the whole payload, of any
length from 1 to 255. `Request.byLengths` puts this down by the places of the
bytes, without a reader, and the decoders answer the same for every payload.

An opening has a path and a chain id, and the path is looked at first. So the
status word of a bad chain id is sent just where a whole path is there and no
whole chain id behind it, and that of a bad length in all other refusals.

Key definitions: `wordAt`, `DerivationPath.InFront`, `DerivationPath.front`,
`ChainId.InFront`, `ChainId.front`, `Request.byLengths`, `Request.RefusedWith`.
Key theorems: `DerivationPath.run_decoder_of_inFront`,
`DerivationPath.run_decoder_of_not`, `ChainId.run_decoder_of_not`,
`Request.ofCommand_eq_byLengths`, `Request.requests_told_by_lengths`.
-/
import HardwareSigner.Proofs.Faults
import HardwareSigner.Proofs.PayloadGrammar
import HardwareSigner.Session.Exchange

namespace HardwareSigner

open Decoder ByteReader Payload

/-- A value is refused for the one cause of its decoder where it is not written. -/
theorem Payload.decode_eq_error {α : Type} [Payload α] (h : SelfDelimiting α) {e : PayloadError}
    (he : (decoder : Decoder PayloadError α).StopsFor e) {buffer : Bytes}
    (hnone : ∀ a : α, ¬bytes a <+: buffer) : decode α buffer = .error e := by
  obtain ⟨r', hrun⟩ := h.stops he (r := ofBytes buffer) fun a bs hbs => hbs ▸ hnone a
  unfold decode
  rw [hrun]

/-- The word whose four bytes, most significant first, start at byte `i`. -/
def wordAt (bs : Bytes) (i : Nat) : UInt32 := UInt32.ofNat (ofBigEndian ((bs.drop i).take 4))

theorem be32_wordAt {bs : Bytes} {i : Nat} (h : i + 4 ≤ bs.length) :
    be32 (wordAt bs i) = (bs.drop i).take 4 := by
  apply be32_ofNat_ofBigEndian
  rw [List.length_take, List.length_drop]
  omega

theorem flatMap_be32_wordAt (bs : Bytes) (n : Nat) (h : 4 * n ≤ bs.length) :
    ((List.range n).map fun i => wordAt bs (4 * i)).flatMap be32 = bs.take (4 * n) := by
  induction n with
  | zero => rfl
  | succ n ih =>
    have hlast : be32 (wordAt bs (4 * n)) = (bs.drop (4 * n)).take 4 := be32_wordAt (by omega)
    calc ((List.range (n + 1)).map fun i => wordAt bs (4 * i)).flatMap be32
        = ((List.range n).map fun i => wordAt bs (4 * i)).flatMap be32 ++
            be32 (wordAt bs (4 * n)) := by simp [List.range_succ]
      _ = bs.take (4 * n) ++ (bs.drop (4 * n)).take 4 := by rw [ih (by omega), hlast]
      _ = bs.take (4 * (n + 1)) := List.take_add.symm

/-! ### A path in front -/

namespace DerivationPath

/-- How many components a payload announces: its first byte. -/
def announced (p : Bytes) : Nat := (p.headD 0).toNat

/-- The payload starts with a path: a first byte of at most ten, and as many words
behind it. -/
def InFront (p : Bytes) : Prop :=
  1 ≤ p.length ∧ announced p ≤ 10 ∧ 1 + 4 * announced p ≤ p.length

instance (p : Bytes) : Decidable (InFront p) :=
  inferInstanceAs (Decidable (1 ≤ p.length ∧ announced p ≤ 10 ∧ 1 + 4 * announced p ≤ p.length))

theorem not_inFront_iff {p : Bytes} :
    ¬InFront p ↔ p.length < 1 ∨ 10 < announced p ∨ p.length < 1 + 4 * announced p := by
  unfold InFront
  omega

theorem length_wordsBehind {p : Bytes} (h : InFront p) :
    ((List.range (announced p)).map fun i => wordAt p (1 + 4 * i)).length ≤ maxLength := by
  rw [List.length_map, List.length_range]
  exact h.2.1

/-- The path that a payload starts with. -/
def front (p : Bytes) (h : InFront p) : DerivationPath where
  components := (List.range (announced p)).map fun i => wordAt p (1 + 4 * i)
  length_le := length_wordsBehind h

/-- What is behind the path that a payload starts with. -/
def behind (p : Bytes) : Bytes := p.drop (1 + 4 * announced p)

theorem bytes_front {p : Bytes} (h : InFront p) :
    (front p h).bytes = p.take (1 + 4 * announced p) := by
  cases p with
  | nil => exact absurd h.1 (by decide)
  | cons count tail =>
    have hlength : (front _ h).components.length = count.toNat := by
      show ((List.range _).map _).length = _
      rw [List.length_map, List.length_range]
      rfl
    have hwords : (front _ h).components =
        (List.range count.toNat).map fun i => wordAt tail (4 * i) := by
      show (List.range _).map _ = _
      apply List.map_congr_left
      intro i _
      rw [Nat.add_comm]
      rfl
    have htail : 4 * count.toNat ≤ tail.length := by
      have hle : 1 + 4 * count.toNat ≤ (count :: tail).length := h.2.2
      rw [List.length_cons] at hle
      omega
    calc (front _ h).bytes
        = count :: ((List.range count.toNat).map fun i => wordAt tail (4 * i)).flatMap be32 := by
          rw [bytes, hlength, hwords, UInt8.ofNat_toNat]
      _ = count :: tail.take (4 * count.toNat) := by rw [flatMap_be32_wordAt tail _ htail]
      _ = (count :: tail).take (4 * count.toNat + 1) := List.take_succ_cons.symm
      _ = (count :: tail).take (1 + 4 * announced (count :: tail)) := by rw [Nat.add_comm]; rfl

theorem inFront_of_isPrefix {p : Bytes} {path : DerivationPath} (h : path.bytes <+: p) :
    InFront p := by
  have hcount : announced p = path.components.length := by
    obtain ⟨tail, rfl⟩ := h
    exact path.toNat_ofNat_length
  have hle := h.length_le
  rw [path.length_bytes] at hle
  have hten := path.length_le_ten
  exact ⟨by omega, by omega, by omega⟩

theorem stopsFor_decoder : decoder.StopsFor .invalidLength := by
  refine (stopsFor_field _ _).bind fun count => ?_
  split
  · exact (stopsFor_field _ _).bind fun _ => stopsFor_pure _ _
  · exact stopsFor_fail _

theorem run_decoder_of_inFront {r : ByteReader} (h : InFront r.rest) :
    decoder.run r = (.ok (front r.rest h), r.advance (1 + 4 * announced r.rest)) := by
  apply accepts_decoder.run_eq_iff.mpr
  rw [bytes_front h, ← length_rest]
  exact ⟨h.2.2, rfl⟩

theorem run_decoder_of_not {r : ByteReader} (h : ¬InFront r.rest) :
    ∃ r', decoder.run r = (.error .invalidLength, r') := by
  apply accepts_decoder.stops stopsFor_decoder
  rintro path _ rfl hpre
  exact h (inFront_of_isPrefix hpre)

end DerivationPath

/-! ### A chain id in front -/

namespace ChainId

/-- How many bytes a chain id announces: its first four bytes. -/
def announced (q : Bytes) : Nat := ofBigEndian (q.take 4)

/-- The bytes start with a chain id: a length of at most twenty-seven, and as many
bytes behind it. -/
def InFront (q : Bytes) : Prop :=
  4 ≤ q.length ∧ announced q ≤ 27 ∧ 4 + announced q ≤ q.length

instance (q : Bytes) : Decidable (InFront q) :=
  inferInstanceAs (Decidable (4 ≤ q.length ∧ announced q ≤ 27 ∧ 4 + announced q ≤ q.length))

theorem not_inFront_iff {q : Bytes} :
    ¬InFront q ↔ q.length < 4 ∨ 27 < announced q ∨ q.length < 4 + announced q := by
  unfold InFront
  omega

theorem length_bytesBehind {q : Bytes} (h : InFront q) :
    ((q.drop 4).take (announced q)).length ≤ maxLength := by
  rw [List.length_take]
  exact Nat.le_trans (Nat.min_le_left _ _) h.2.1

/-- The chain id that the bytes start with. -/
def front (q : Bytes) (h : InFront q) : ChainId where
  bytes := (q.drop 4).take (announced q)
  length_le := length_bytesBehind h

theorem framed_front {q : Bytes} (h : InFront q) :
    (front q h).framed = q.take (4 + announced q) := by
  have hfour := h.1
  have hle := h.2.2
  have hlength : (front q h).bytes.length = announced q := by
    show ((q.drop 4).take (announced q)).length = _
    rw [List.length_take, List.length_drop]
    omega
  have hfront : be32 (UInt32.ofNat (announced q)) = q.take 4 :=
    be32_ofNat_ofBigEndian (List.length_take_of_le hfour)
  calc (front q h).framed
      = be32 (UInt32.ofNat (announced q)) ++ (front q h).bytes := by
        rw [framed, lengthBytes, hlength]
    _ = q.take 4 ++ (q.drop 4).take (announced q) := by rw [hfront]; rfl
    _ = q.take (4 + announced q) := List.take_add.symm

theorem inFront_of_isPrefix {q : Bytes} {c : ChainId} (h : c.framed <+: q) : InFront q := by
  have hannounced : announced q = c.bytes.length := by
    obtain ⟨tail, rfl⟩ := h
    rw [announced, framed, lengthBytes, List.append_assoc, List.take_left' (length_be32 _),
      ofBigEndian_be32, c.toNat_ofNat_length]
  have hle := h.length_le
  rw [c.length_framed] at hle
  have hmost := c.length_le_twentySeven
  exact ⟨by omega, by omega, by omega⟩

theorem stopsFor_decoder : decoder.StopsFor .invalidEncoding := by
  refine (stopsFor_field _ _).bind fun length => ?_
  split
  · exact (stopsFor_field _ _).bind fun _ => stopsFor_pure _ _
  · exact stopsFor_fail _

theorem run_decoder_of_not {r : ByteReader} (h : ¬InFront r.rest) :
    ∃ r', decoder.run r = (.error .invalidEncoding, r') := by
  apply accepts_decoder.stops stopsFor_decoder
  rintro c _ rfl hpre
  exact h (inFront_of_isPrefix hpre)

end ChainId

/-! ### Messages -/

theorem AddressRequest.decode_of_inFront {p : Bytes} (h : DerivationPath.InFront p) :
    ∃ n, decode AddressRequest p = .ok (⟨DerivationPath.front p h⟩, n) := by
  refine ⟨_, (decode_eq_ok_iff selfDelimiting).mpr ⟨?_, rfl⟩⟩
  show (DerivationPath.front p h).bytes <+: p
  rw [DerivationPath.bytes_front]
  exact List.take_prefix _ _

theorem AddressRequest.decode_of_not {p : Bytes} (h : ¬DerivationPath.InFront p) :
    decode AddressRequest p = .error .invalidLength := by
  apply decode_eq_error selfDelimiting
  · exact DerivationPath.stopsFor_decoder.bind fun _ => stopsFor_pure _ _
  · intro m hpre
    exact h (DerivationPath.inFront_of_isPrefix hpre)

namespace SigningOpening

variable {p : Bytes}

/-- A payload without a path is refused for its length, whatever is in it. -/
theorem decode_of_not (h : ¬DerivationPath.InFront p) :
    decode SigningOpening p = .error .invalidLength := by
  obtain ⟨r', hrun⟩ := DerivationPath.run_decoder_of_not (r := ofBytes p) h
  have hopening : (decoder : Decoder PayloadError SigningOpening).run (ofBytes p) =
      (.error .invalidLength, r') := bind_error hrun
  unfold decode
  rw [hopening]

/-- Behind a path, what is wrong with the chain id is its encoding. -/
theorem decode_of_inFront_of_not (h : DerivationPath.InFront p)
    (hchainId : ¬ChainId.InFront (DerivationPath.behind p)) :
    decode SigningOpening p = .error .invalidEncoding := by
  have hpath := DerivationPath.run_decoder_of_inFront (r := ofBytes p) h
  obtain ⟨r', hrun⟩ := ChainId.run_decoder_of_not
    (r := (ofBytes p).advance (1 + 4 * DerivationPath.announced p)) (by rwa [rest_advance])
  have hopening : (decoder : Decoder PayloadError SigningOpening).run (ofBytes p) =
      (.error .invalidEncoding, r') := (bind_ok hpath).trans (bind_error hrun)
  unfold decode
  rw [hopening]

theorem decode_of_inFront (h : DerivationPath.InFront p)
    (hchainId : ChainId.InFront (DerivationPath.behind p)) :
    ∃ n, decode SigningOpening p =
      .ok (⟨DerivationPath.front p h, ChainId.front (DerivationPath.behind p) hchainId⟩, n) := by
  refine ⟨_, (decode_eq_ok_iff selfDelimiting).mpr ⟨?_, rfl⟩⟩
  show (DerivationPath.front p h).bytes ++ (ChainId.front _ hchainId).framed <+: p
  rw [DerivationPath.bytes_front, ChainId.framed_front, DerivationPath.behind, ← List.take_add]
  exact List.take_prefix _ _

end SigningOpening

/-! ### Requests -/

namespace Request

/-- The request that a command makes with a payload, or why it is refused, by the
lengths that stand in the payload. -/
def byLengths (command : Command) (p : Bytes) : Except PayloadError Request :=
  match command with
  | .getVersion | .getAppName => .ok .none
  | .getAddress display =>
    if h : DerivationPath.InFront p then .ok (.getAddress (DerivationPath.front p h) display)
    else .error .invalidLength
  | .signTx true _ =>
    if h : DerivationPath.InFront p then
      if h' : ChainId.InFront (DerivationPath.behind p) then
        .ok (.openSigning (DerivationPath.front p h) (ChainId.front _ h'))
      else .error .invalidEncoding
    else .error .invalidLength
  | .signTx false more =>
    if 1 ≤ p.length ∧ p.length ≤ 255 then .ok (.chunk p more) else .error .invalidLength

theorem ofCommand_eq_byLengths (command : Command) (p : Bytes) :
    ofCommand command p = byLengths command p := by
  cases command with
  | getVersion => rfl
  | getAppName => rfl
  | getAddress display =>
    unfold ofCommand byLengths
    by_cases h : DerivationPath.InFront p
    · obtain ⟨n, hdecode⟩ := AddressRequest.decode_of_inFront h
      simp only [hdecode, dif_pos h]
    · simp only [AddressRequest.decode_of_not h, dif_neg h]
  | signTx first more =>
    cases first with
    | true =>
      unfold ofCommand byLengths
      by_cases h : DerivationPath.InFront p
      · by_cases h' : ChainId.InFront (DerivationPath.behind p)
        · obtain ⟨n, hdecode⟩ := SigningOpening.decode_of_inFront h h'
          simp only [hdecode, dif_pos h, dif_pos h']
        · simp only [SigningOpening.decode_of_inFront_of_not h h', dif_pos h, dif_neg h']
      · simp only [SigningOpening.decode_of_not h, dif_neg h]
    | false =>
      unfold ofCommand byLengths
      by_cases h : 1 ≤ p.length ∧ p.length ≤ 255
      · have hdecode := SigningChunk.decode_data (List.length_pos_iff.mp h.1) h.2
        simp only [hdecode, if_pos h]
      · have hrefused : p = [] ∨ Command.maxPayload < p.length := by
          rw [← List.length_eq_zero_iff]
          show p.length = 0 ∨ 255 < p.length
          omega
        simp only [SigningChunk.decode_refused hrefused, if_neg h]

/-! ### Refusals -/

variable {command : Command} {p : Bytes}

/-- The encoding is to blame just where a chain id is, which only an opening has,
and only behind a path. -/
theorem byLengths_eq_invalidEncoding_iff : byLengths command p = .error .invalidEncoding ↔
    ∃ more, command = .signTx true more ∧ DerivationPath.InFront p ∧
      ¬ChainId.InFront (DerivationPath.behind p) := by
  fun_cases byLengths command p with
  | case1 => simp
  | case2 => simp
  | case3 display h => simp
  | case4 display h => simp
  | case5 more h h' => simp [h']
  | case6 more h h' => simp [h, h']
  | case7 more h => simp [h]
  | case8 more h => simp
  | case9 more h => simp

theorem byLengths_eq_invalidLength_iff : byLengths command p = .error .invalidLength ↔
    ((∃ display, command = .getAddress display) ∨ ∃ more, command = .signTx true more) ∧
        ¬DerivationPath.InFront p ∨
      (∃ more, command = .signTx false more) ∧ (p.length < 1 ∨ 255 < p.length) := by
  fun_cases byLengths command p with
  | case1 => simp
  | case2 => simp
  | case3 display h => simp [h]
  | case4 display h => simp [h]
  | case5 more h h' => simp [h]
  | case6 more h h' => simp [h]
  | case7 more h => simp [h]
  | case8 more h => grind
  | case9 more h => grind

theorem byLengths_eq_error {e : PayloadError} (h : byLengths command p = .error e) :
    e = .invalidLength ∨ e = .invalidEncoding := by
  unfold byLengths at h
  repeat' split at h
  all_goals cases h
  all_goals simp

/-- The host is sent this status word, because of the payload. -/
def RefusedWith (command : Command) (p : Bytes) (sw : StatusWord) : Prop :=
  ∃ e, ofCommand command p = .error e ∧ e.statusWord = sw

/-- Of the two causes there are, each has its own status word. -/
theorem refusedWith_statusWord_iff {e : PayloadError}
    (he : e = .invalidLength ∨ e = .invalidEncoding) :
    RefusedWith command p e.statusWord ↔ byLengths command p = .error e := by
  unfold RefusedWith
  rw [ofCommand_eq_byLengths]
  constructor
  · rintro ⟨e', he', hsw⟩
    have hsame : e' = e := by
      rcases he with rfl | rfl <;> rcases byLengths_eq_error he' with rfl | rfl
      · rfl
      · cases hsw
      · cases hsw
      · rfl
    rwa [hsame] at he'
  · intro h
    exact ⟨e, h, rfl⟩

/-- **Requests are told by lengths.** A command makes of every payload the request
that the lengths in it tell, or is refused as they tell. So the host is sent the
status word of a bad chain id exactly if an opening has a whole path and behind
it a chain id that is missing, too long or cut off; and that of a bad length
exactly if the path is missing, too long or cut off where one is due, or a chunk
is empty or too long. -/
theorem requests_told_by_lengths (command : Command) (p : Bytes) :
    ofCommand command p = byLengths command p ∧
    (RefusedWith command p .invalidChainId ↔
      ∃ more, command = .signTx true more ∧ DerivationPath.InFront p ∧
        ((DerivationPath.behind p).length < 4 ∨ 27 < ChainId.announced (DerivationPath.behind p) ∨
          (DerivationPath.behind p).length < 4 + ChainId.announced (DerivationPath.behind p))) ∧
    (RefusedWith command p .wrongDataLength ↔
      ((∃ display, command = .getAddress display) ∨ ∃ more, command = .signTx true more) ∧
          (p.length < 1 ∨ 10 < DerivationPath.announced p ∨
            p.length < 1 + 4 * DerivationPath.announced p) ∨
        (∃ more, command = .signTx false more) ∧ (p.length < 1 ∨ 255 < p.length)) := by
  have hchainId : RefusedWith command p .invalidChainId ↔ _ :=
    refusedWith_statusWord_iff (.inr rfl)
  have hlength : RefusedWith command p .wrongDataLength ↔ _ :=
    refusedWith_statusWord_iff (.inl rfl)
  rw [hchainId, byLengths_eq_invalidEncoding_iff, ChainId.not_inFront_iff, hlength,
    byLengths_eq_invalidLength_iff, DerivationPath.not_inFront_iff]
  exact ⟨ofCommand_eq_byLengths command p, Iff.rfl, Iff.rfl⟩

end Request
end HardwareSigner
