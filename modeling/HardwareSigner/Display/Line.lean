/-
# Lines of the display

A line holds a fixed number of characters and is written piece by piece. A
checked piece that does not fit gives the line up, and the user is shown an
error text in its place. An unchecked piece is written without asking: if it
runs over the end, nothing can be shown at all.

Key definitions: `Piece`, `Line`, `Line.layOut`, `Line.shown?`.
-/
namespace HardwareSigner

/-- Text to be written to a line, and whether it is asked first if it
fits. -/
structure Piece where
  text : List Char
  checked : Bool
  deriving DecidableEq

/-- What becomes of a line. -/
inductive Line
  /-- The pieces, one after the other. -/
  | text (s : String)
  /-- A checked piece did not fit. -/
  | unfit
  /-- An unchecked piece ran over the end. -/
  | overrun
  deriving DecidableEq, Repr

namespace Line

/-- What is shown in place of a text that does not fit. -/
def unfitText : String := "ENCODE_ERR"

/-- What the user is shown, unless the end was run over. -/
def shown? : Line → Option String
  | text s => some s
  | unfit => some unfitText
  | overrun => none

/-- Write pieces behind what a line of `capacity` characters holds
already. -/
def layOutAfter (capacity : Nat) (written : List Char) : List Piece → Line
  | [] => text (String.ofList written)
  | p :: ps =>
    if written.length + p.text.length ≤ capacity then layOutAfter capacity (written ++ p.text) ps
    else if p.checked then unfit
    else overrun

/-- Write pieces to an empty line of `capacity` characters. -/
def layOut (capacity : Nat) (pieces : List Piece) : Line := layOutAfter capacity [] pieces

/-- Pieces that fit together are shown one after the other. -/
theorem layOutAfter_of_fits {capacity : Nat} :
    ∀ {written : List Char} {pieces : List Piece},
      written.length + (pieces.flatMap Piece.text).length ≤ capacity →
      layOutAfter capacity written pieces =
        text (String.ofList (written ++ pieces.flatMap Piece.text))
  | written, [], _ => by simp [layOutAfter]
  | written, p :: ps, h => by
    simp only [List.flatMap_cons, List.length_append] at h
    rw [layOutAfter, if_pos (by omega), layOutAfter_of_fits (by rw [List.length_append]; omega)]
    simp

/-- A line of one checked piece shows it if it fits, and the error text if it
does not. -/
theorem layOut_checked (capacity : Nat) (cs : List Char) :
    layOut capacity [⟨cs, true⟩] =
      if cs.length ≤ capacity then text (String.ofList cs) else unfit := by
  simp [layOut, layOutAfter]

end Line
end HardwareSigner
