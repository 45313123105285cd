/-
# Closed sets of names and codes

The protocol fixes several small sets of values (instructions, status words,
address kinds, causes of refusal). Each is an inductive type that lists its
members in a fixed order and names each of them; most give each a number as
well. Looking a name or a number up goes through the list, so it answers a
member exactly when that member carries it.

Key definitions: `Enumerated`, `Enumerated.ofName?`, `Coded`, `Coded.ofCode?`.
Key theorems: `Enumerated.name_of_ofName?`, `Coded.code_of_ofCode?`.
-/
namespace HardwareSigner

/-- A closed set of named values, in a fixed order. -/
class Enumerated (α : Type) where
  /-- Every value, in order. -/
  all : List α
  /-- The name of a value. -/
  name : α → String

/-- A closed set whose values have numbers of type `κ`. -/
class Coded (α : Type) (κ : outParam Type) extends Enumerated α where
  /-- The number of a value. -/
  code : α → κ

namespace Enumerated

/-- The names of all values, in order. -/
def names (α : Type) [Enumerated α] : List String := (all : List α).map name

/-- The value of this name; case counts. -/
def ofName? (α : Type) [Enumerated α] (s : String) : Option α := all.find? fun a => name a == s

/-- A value found by name has that name. -/
theorem name_of_ofName? {α : Type} [Enumerated α] {s : String} {a : α}
    (h : ofName? α s = some a) : name a = s := by
  simpa using List.find?_some h

end Enumerated

namespace Coded

/-- The value of this number. -/
def ofCode? (α : Type) {κ : Type} [Coded α κ] [BEq κ] (c : κ) : Option α :=
  Enumerated.all.find? fun a => code a == c

/-- A value found by number has that number. -/
theorem code_of_ofCode? {α κ : Type} [Coded α κ] [BEq κ] [LawfulBEq κ] {c : κ} {a : α}
    (h : ofCode? α c = some a) : code a = c := by
  simpa using List.find?_some h

end Coded

end HardwareSigner
