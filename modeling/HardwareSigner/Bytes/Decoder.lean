/-
# Decoders

A decoder reads fields off a `ByteReader`, one after the other, and answers a
value or the cause at which it stopped. It hands the reader back either way:
fields read before the failing one stay read, so the position tells where
the input went wrong.

`Decoder.field e read` is one field, blamed on `e` if the bytes run out;
`do` runs decoders in order and stops at the first cause.

Key definitions: `Decoder`, `Decoder.field`, `Decoder.fail`.
Key theorems: `Decoder.run_bind`, `Decoder.run_field`.
-/
import HardwareSigner.Bytes.Reader

namespace HardwareSigner

/-- A way to read a value of type `α` off a reader, or to stop with a cause
of type `ε`; the reader comes back in both cases. -/
def Decoder (ε α : Type) := ByteReader → Except ε α × ByteReader

namespace Decoder

variable {ε α β : Type}

/-- Run a decoder on a reader. -/
def run (d : Decoder ε α) (r : ByteReader) : Except ε α × ByteReader := d r

instance : Monad (Decoder ε) where
  pure a := fun r => (.ok a, r)
  bind d f := fun r =>
    match d r with
    | (.ok a, r') => f a r'
    | (.error e, r') => (.error e, r')

/-- Stop here, because of `e`. -/
def fail (e : ε) : Decoder ε α := fun r => (.error e, r)

/-- One field: what `read` gives, or the cause `e` if it gives nothing, with
the reader then left where it was. -/
def field (e : ε) (read : ByteReader → Option (α × ByteReader)) : Decoder ε α := fun r =>
  match read r with
  | some (a, r') => (.ok a, r')
  | none => (.error e, r)

/-- All the bytes that are left. -/
def takeRest : Decoder ε Bytes := fun r => (.ok r.rest, r.advance r.remaining)

/-! ### One equation for each way to build a decoder -/

@[simp] theorem run_pure (a : α) (r : ByteReader) :
    (pure a : Decoder ε α).run r = (.ok a, r) := rfl

@[simp] theorem run_fail (e : ε) (r : ByteReader) :
    (fail e : Decoder ε α).run r = (.error e, r) := rfl

@[simp] theorem run_takeRest (r : ByteReader) :
    (takeRest : Decoder ε Bytes).run r = (.ok r.rest, r.advance r.remaining) := rfl

/-- Decoders run one after the other, up to the first cause. -/
theorem run_bind (d : Decoder ε α) (f : α → Decoder ε β) (r : ByteReader) :
    (d >>= f).run r =
      match d.run r with
      | (.ok a, r') => (f a).run r'
      | (.error e, r') => (.error e, r') := rfl

/-- A field is what `read` gives, or its cause where the reader stands. -/
theorem run_field (e : ε) (read : ByteReader → Option (α × ByteReader)) (r : ByteReader) :
    (field e read).run r =
      match read r with
      | some (a, r') => (.ok a, r')
      | none => (.error e, r) := rfl

theorem bind_ok {d : Decoder ε α} {f : α → Decoder ε β} {r r' : ByteReader} {a : α}
    (h : d.run r = (.ok a, r')) : (d >>= f).run r = (f a).run r' := by
  rw [run_bind, h]

theorem bind_error {d : Decoder ε α} {f : α → Decoder ε β} {r r' : ByteReader} {e : ε}
    (h : d.run r = (.error e, r')) : (d >>= f).run r = (.error e, r') := by
  rw [run_bind, h]

theorem field_some {e : ε} {read : ByteReader → Option (α × ByteReader)} {r r' : ByteReader}
    {a : α} (h : read r = some (a, r')) : (field e read).run r = (.ok a, r') := by
  rw [run_field, h]

theorem field_none {e : ε} {read : ByteReader → Option (α × ByteReader)} {r : ByteReader}
    (h : read r = none) : (field e read).run r = (.error e, r) := by
  rw [run_field, h]

end Decoder
end HardwareSigner
