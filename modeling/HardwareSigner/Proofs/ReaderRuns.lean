/-
# Runs of a reader

A reader is asked for fields, to fill buffers, to pass over bytes, to mark its
place and to go back to a mark, in any order and with any numbers. What one
operation does is told by the bytes, the place and the marks alone
(`Operation.Does`, `Reading.does_perform`): a field is there exactly if as many
bytes are left as it is wide, and is then made of just these; what fills a
buffer or is passed over is as much as was asked for, or all that is left. So
every operation moves on by no more than is left, or goes back to a mark
(`Reading.moves_or_goesBack`).

Two things follow for whole runs. The place and every mark stay within the
bytes (`Reading.sound_after`), so nothing is read past the end and there is
nothing to check when the reader goes back. And as long as it does not go back,
what is handed out and what is passed over, one after the other, are the bytes
from where the run starts to where it ends (`Reading.taken_eq_extract`): none
is lost, and none comes twice.

Key definitions: `ByteReader.Field`, `ByteReader.Operation`,
`ByteReader.Reading`, `ByteReader.Operation.Does`, `ByteReader.Reading.taken`.
Key theorems: `ByteReader.Reading.does_perform`,
`ByteReader.Reading.moves_or_goesBack`, `ByteReader.Reading.sound_after`,
`ByteReader.Reading.taken_eq_extract`.
-/
import HardwareSigner.Proofs.Grammar

namespace HardwareSigner
namespace ByteReader

/-! ### Fields -/

/-- The fields that a reader reads whole or not at all. -/
inductive Field
  | byte
  | word32 (e : Endian)
  | word64 (e : Endian)
  | address
  /-- As many bytes as are asked for. -/
  | run (n : Nat)

namespace Field

/-- What a field holds. -/
def Value : Field → Type
  | byte => UInt8
  | word32 _ => UInt32
  | word64 _ => UInt64
  | address => Address
  | run n => FixedBytes n

/-- How many bytes a field takes. -/
def width : Field → Nat
  | byte => 1
  | word32 _ => 4
  | word64 _ => 8
  | address => Address.length
  | run n => n

/-- The bytes that make up a field. -/
def written : (f : Field) → f.Value → Bytes
  | byte => fun b => [b]
  | word32 e => fun n => e.encode 4 n.toNat
  | word64 e => fun n => e.encode 8 n.toNat
  | address => Address.bytes
  | run _ => FixedBytes.toList

/-- Read a field. -/
def read : (f : Field) → ByteReader → Option (f.Value × ByteReader)
  | byte => readByte
  | word32 e => readUInt32 e
  | word64 e => readUInt64 e
  | address => readAddress
  | run n => readExact n

theorem isField : ∀ f : Field, IsField f.read f.width f.written
  | byte => isField_readByte
  | word32 e => isField_readUInt32 e
  | word64 e => isField_readUInt64 e
  | address => isField_readAddress
  | run n => isField_readExact n

end Field

/-! ### Operations and runs -/

/-- What a reader is asked to do. Marks are named by their place among those
set so far. -/
inductive Operation
  | read (f : Field)
  | fill (buffer : Bytes)
  | skip (n : Nat)
  | mark
  | rewind (slot : Nat)
  | consumedSince (slot : Nat)

namespace Operation

/-- What is answered: no value for a field that is not there, and none for a mark that
was not set. -/
abbrev Answer : Operation → Type
  | read f => Option f.Value
  | fill _ => Nat × Bytes
  | skip _ => Nat
  | mark => Mark
  | rewind _ => Option Mark
  | consumedSince _ => Option Nat

/-- Whether an operation goes back to a mark. -/
def goesBack : Operation → Bool
  | rewind _ => true
  | _ => false

/-- The bytes that an operation on `r` handed out, or passed over. -/
def taken (r : ByteReader) : (op : Operation) → op.Answer → Bytes
  | read f, some v => f.written v
  | read _, none => []
  | fill _, (n, buffer) => buffer.take n
  | skip _, n => r.rest.take n
  | mark, _ => []
  | rewind _, _ => []
  | consumedSince _, _ => []

end Operation

/-- A reader in use, and the marks that were set on it. -/
structure Reading where
  reader : ByteReader
  marks : List Mark

namespace Reading

/-- A reader at the start of its bytes, without marks. -/
def start (bytes : Bytes) : Reading := ⟨ofBytes bytes, []⟩

/-- The reading `n` bytes further on. -/
def moved (s : Reading) (n : Nat) : Reading := { s with reader := s.reader.advance n }

/-- Do what is asked. -/
def perform (s : Reading) : (op : Operation) → op.Answer × Reading
  | .read f =>
    match f.read s.reader with
    | some (v, reader) => (some v, { s with reader })
    | none => (none, s)
  | .fill buffer =>
    let (n, buffer, reader) := s.reader.readInto buffer
    ((n, buffer), { s with reader })
  | .skip n =>
    let (n, reader) := s.reader.skip n
    (n, { s with reader })
  | .mark => (s.reader.mark, { s with marks := s.marks ++ [s.reader.mark] })
  | .rewind slot =>
    match s.marks[slot]? with
    | some m => (some m, { s with reader := s.reader.rewind m })
    | none => (none, s)
  | .consumedSince slot => (s.marks[slot]?.map fun m => s.reader.consumedSince m, s)

/-- The reading behind a run of operations. -/
def after (s : Reading) (ops : List Operation) : Reading :=
  ops.foldl (fun s op => (s.perform op).2) s

/-- The bytes that a run handed out or passed over, one after the other. -/
def taken (s : Reading) : List Operation → Bytes
  | [] => []
  | op :: ops => op.taken s.reader (s.perform op).1 ++ (s.perform op).2.taken ops

end Reading

/-! ### What one operation does -/

/-- What `op` answers on `s` and where it leads, told by the bytes, the place
and the marks. -/
def Operation.Does (s : Reading) : (op : Operation) → op.Answer → Reading → Prop
  | .read f, some v, s' => f.width ≤ s.reader.remaining ∧
      f.written v = s.reader.bytes.extract s.reader.offset (s.reader.offset + f.width) ∧
      s' = s.moved f.width
  | .read f, none, s' => s.reader.remaining < f.width ∧ s' = s
  | .fill buffer, (n, out), s' => n = min buffer.length s.reader.remaining ∧
      out = s.reader.bytes.extract s.reader.offset (s.reader.offset + n) ++ buffer.drop n ∧
      s' = s.moved n
  | .skip n, k, s' => k = min n s.reader.remaining ∧ s' = s.moved k
  | .mark, m, s' => m.offset = s.reader.offset ∧ s' = { s with marks := s.marks ++ [m] }
  | .rewind slot, some m, s' => s.marks[slot]? = some m ∧
      s' = { s with reader := { s.reader with offset := m.offset } }
  | .rewind slot, none, s' => s.marks.length ≤ slot ∧ s' = s
  | .consumedSince slot, some n, s' => s' = s ∧ ∃ m, s.marks[slot]? = some m ∧
      (m.offset ≤ s.reader.offset → m.offset + n = s.reader.offset)
  | .consumedSince slot, none, s' => s.marks.length ≤ slot ∧ s' = s

theorem take_rest (r : ByteReader) (n : Nat) :
    r.rest.take n = r.bytes.extract r.offset (r.offset + n) := by
  show _ = (r.bytes.drop r.offset).take (r.offset + n - r.offset)
  rw [Nat.add_sub_cancel_left]
  rfl

namespace Reading

variable {bytes : Bytes} {s s' : Reading}

/-- **What an operation does is told by where the reader stands.** -/
theorem does_perform (s : Reading) (op : Operation) :
    op.Does s (s.perform op).1 (s.perform op).2 := by
  cases op with
  | read f =>
    rcases f.isField.cases s.reader with ⟨hshort, hread⟩ | ⟨hle, v, hread, hwritten⟩
    · rw [perform, hread]
      exact ⟨hshort, rfl⟩
    · rw [perform, hread]
      exact ⟨hle, hwritten.trans (take_rest _ _), rfl⟩
  | fill buffer =>
    have hlen : (s.reader.rest.take (min buffer.length s.reader.remaining)).length =
        min buffer.length s.reader.remaining := by
      rw [List.length_take, length_rest]
      omega
    refine ⟨rfl, ?_, rfl⟩
    show buffer.overwrite _ = _
    unfold Bytes.overwrite
    rw [hlen, take_rest]
    rfl
  | skip n => exact ⟨rfl, rfl⟩
  | mark => exact ⟨rfl, rfl⟩
  | rewind slot =>
    rw [perform]
    cases hmark : s.marks[slot]? with
    | none => exact ⟨List.getElem?_eq_none_iff.mp hmark, rfl⟩
    | some m => exact ⟨hmark, rfl⟩
  | consumedSince slot =>
    rw [perform]
    cases hmark : s.marks[slot]? with
    | none => exact ⟨List.getElem?_eq_none_iff.mp hmark, rfl⟩
    | some m => exact ⟨rfl, m, hmark, fun hle => Nat.add_sub_cancel' hle⟩

/-- **Every operation moves on or goes back.** It moves on by no more than is left,
if only by nothing, takes what it passes and may mark where it stood; or it
goes back to a mark. -/
theorem moves_or_goesBack {op : Operation} {answer : op.Answer} (hdoes : op.Does s answer s') :
    (∃ n ≤ s.reader.remaining, s'.reader = s.reader.advance n ∧
      op.taken s.reader answer = s.reader.rest.take n ∧
      ∀ m ∈ s'.marks, m ∈ s.marks ∨ m.offset = s.reader.offset) ∨
    (op.goesBack = true ∧ ∃ m ∈ s.marks, s'.reader = s.reader.rewind m ∧ s'.marks = s.marks) := by
  -- A failed read, a mark that is not there and a question are moves by no bytes.
  have hstays : ∃ n ≤ s.reader.remaining, s.reader = s.reader.advance n ∧
      [] = s.reader.rest.take n ∧ ∀ m ∈ s.marks, m ∈ s.marks ∨ m.offset = s.reader.offset :=
    ⟨0, Nat.zero_le _, rfl, rfl, fun _ hm => .inl hm⟩
  cases op with
  | read f =>
    cases answer with
    | none =>
      obtain ⟨-, rfl⟩ := hdoes
      exact .inl hstays
    | some v =>
      obtain ⟨hle, hwritten, rfl⟩ := hdoes
      exact .inl ⟨f.width, hle, rfl, hwritten.trans (take_rest _ _).symm, fun _ hm => .inl hm⟩
  | fill buffer =>
    obtain ⟨n, out⟩ := answer
    obtain ⟨hn, rfl, rfl⟩ := hdoes
    have hle : n ≤ s.reader.remaining := hn ▸ Nat.min_le_right _ _
    have hlen : (s.reader.rest.take n).length = n := by
      rw [List.length_take, length_rest, Nat.min_eq_left hle]
    refine .inl ⟨n, hle, rfl, ?_, fun _ hm => .inl hm⟩
    rw [← take_rest]
    exact List.take_left' hlen
  | skip n =>
    obtain ⟨hk, rfl⟩ := hdoes
    exact .inl ⟨_, hk ▸ Nat.min_le_right _ _, rfl, rfl, fun _ hm => .inl hm⟩
  | mark =>
    obtain ⟨hnew, rfl⟩ := hdoes
    refine .inl ⟨0, Nat.zero_le _, rfl, rfl, fun m hm => ?_⟩
    rcases List.mem_append.mp hm with hold | hlast
    · exact .inl hold
    · rw [List.mem_singleton.mp hlast]
      exact .inr hnew
  | rewind slot =>
    cases answer with
    | none =>
      obtain ⟨-, rfl⟩ := hdoes
      exact .inl hstays
    | some m =>
      obtain ⟨hmark, rfl⟩ := hdoes
      exact .inr ⟨rfl, m, List.mem_of_getElem? hmark, rfl, rfl⟩
  | consumedSince slot =>
    cases answer with
    | none =>
      obtain ⟨-, rfl⟩ := hdoes
      exact .inl hstays
    | some n =>
      obtain ⟨rfl, -⟩ := hdoes
      exact .inl hstays

/-! ### The place stays within the bytes -/

/-- The bytes are still the same, and the place and all marks are within them. -/
structure Sound (bytes : Bytes) (s : Reading) : Prop where
  bytes_eq : s.reader.bytes = bytes
  offset_le : s.reader.offset ≤ bytes.length
  mark_le : ∀ m ∈ s.marks, m.offset ≤ bytes.length

theorem sound_start (bytes : Bytes) : Sound bytes (start bytes) :=
  ⟨rfl, Nat.zero_le _, fun _ hm => absurd hm List.not_mem_nil⟩

theorem Sound.offset_add_remaining (h : Sound bytes s) :
    s.reader.offset + s.reader.remaining = bytes.length := by
  have hle := h.offset_le
  unfold remaining
  rw [h.bytes_eq]
  omega

/-- One operation keeps the place within the bytes: what moves it on is bounded
by what is left, and a mark was a place once. -/
theorem Sound.of_does (h : Sound bytes s) {op : Operation} {answer : op.Answer}
    (hdoes : op.Does s answer s') : Sound bytes s' := by
  rcases moves_or_goesBack hdoes with ⟨n, hn, hreader, -, hmarks⟩ | ⟨-, m, hm, hreader, hmarks⟩
  · have hend := h.offset_add_remaining
    refine ⟨?_, ?_, fun m hm => ?_⟩
    · rw [hreader]
      exact h.bytes_eq
    · rw [hreader]
      show s.reader.offset + n ≤ bytes.length
      omega
    · rcases hmarks m hm with hold | hnew
      · exact h.mark_le m hold
      · rw [hnew]
        exact h.offset_le
  · refine ⟨?_, ?_, ?_⟩
    · rw [hreader]
      exact h.bytes_eq
    · rw [hreader]
      exact h.mark_le m hm
    · rw [hmarks]
      exact h.mark_le

theorem sound_after : ∀ {s : Reading} (ops : List Operation), Sound bytes s →
    Sound bytes (s.after ops)
  | _, [], h => h
  | s, op :: ops, h => sound_after ops (h.of_does (does_perform s op))

/-! ### What is taken on the way -/

theorem extract_append_extract (bs : Bytes) {i j k : Nat} (hij : i ≤ j) (hjk : j ≤ k) :
    bs.extract i j ++ bs.extract j k = bs.extract i k := by
  have hj : bs.drop j = (bs.drop i).drop (j - i) := by
    rw [List.drop_drop, Nat.add_sub_cancel' hij]
  calc bs.extract i j ++ bs.extract j k
      = (bs.drop i).take (j - i) ++ ((bs.drop i).drop (j - i)).take (k - j) := by rw [← hj]
    _ = (bs.drop i).take (j - i + (k - j)) := List.take_add.symm
    _ = bs.extract i k := by
        show _ = (bs.drop i).take (k - i)
        congr 1
        omega

theorem extract_self (bs : Bytes) (i : Nat) : bs.extract i i = [] := by
  show (bs.drop i).take (i - i) = []
  rw [Nat.sub_self, List.take_zero]

theorem taken_of_does {op : Operation} {answer : op.Answer} (hdoes : op.Does s answer s')
    (hback : op.goesBack = false) :
    s.reader.offset ≤ s'.reader.offset ∧
      op.taken s.reader answer = s.reader.bytes.extract s.reader.offset s'.reader.offset := by
  rcases moves_or_goesBack hdoes with ⟨n, -, hreader, htaken, -⟩ | ⟨hgoes, -⟩
  · rw [hreader, htaken]
    exact ⟨Nat.le_add_right _ _, take_rest _ _⟩
  · rw [hback] at hgoes
    exact absurd hgoes Bool.false_ne_true

/-- **A run that does not go back takes a stretch of the bytes**, from where it
starts to where it ends. -/
theorem taken_eq_extract : ∀ {s : Reading} (ops : List Operation), Sound bytes s →
    (∀ op ∈ ops, op.goesBack = false) →
    s.reader.offset ≤ (s.after ops).reader.offset ∧
      s.taken ops = bytes.extract s.reader.offset (s.after ops).reader.offset
  | s, [], _, _ => ⟨Nat.le_refl _, (extract_self _ _).symm⟩
  | s, op :: ops, h, hback => by
    have hdoes := does_perform s op
    have hnext := h.of_does hdoes
    obtain ⟨hle, htaken⟩ := taken_of_does hdoes (hback op List.mem_cons_self)
    obtain ⟨hle', htaken'⟩ := taken_eq_extract ops hnext
      fun op' hop' => hback op' (List.mem_cons_of_mem _ hop')
    rw [h.bytes_eq] at htaken
    refine ⟨Nat.le_trans hle hle', ?_⟩
    calc s.taken (op :: ops)
        = op.taken s.reader (s.perform op).1 ++ (s.perform op).2.taken ops := rfl
      _ = bytes.extract s.reader.offset (s.perform op).2.reader.offset ++
            bytes.extract (s.perform op).2.reader.offset
              ((s.perform op).2.after ops).reader.offset := by rw [htaken, htaken']
      _ = bytes.extract s.reader.offset (s.after (op :: ops)).reader.offset :=
          extract_append_extract bytes hle hle'

/-- **A reader loses nothing, repeats nothing and reads nothing past the end.**
Behind any run of operations, whatever numbers and marks they name, the bytes are
those that the reader was made of, the place and the marks are within them, and
what was read and what is left are all of them. The next operation does what the
place tells, whichever it is. And every further run that does not go back moves
on, and takes just the bytes between. -/
theorem runs_take_what_they_pass (bytes : Bytes) (ops : List Operation) :
    let s := (start bytes).after ops
    s.reader.bytes = bytes ∧
    s.reader.offset ≤ bytes.length ∧ s.reader.offset + s.reader.remaining = bytes.length ∧
    (∀ m ∈ s.marks, m.offset ≤ bytes.length) ∧
    (∀ op : Operation, op.Does s (s.perform op).1 (s.perform op).2) ∧
    ∀ further : List Operation, (∀ op ∈ further, op.goesBack = false) →
      s.reader.offset ≤ (s.after further).reader.offset ∧
        s.taken further = bytes.extract s.reader.offset (s.after further).reader.offset := by
  intro s
  have hsound : Sound bytes s := sound_after ops (sound_start bytes)
  exact ⟨hsound.bytes_eq, hsound.offset_le, hsound.offset_add_remaining, hsound.mark_le,
    does_perform s, fun further hback => taken_eq_extract further hsound hback⟩

end Reading
end ByteReader
end HardwareSigner
