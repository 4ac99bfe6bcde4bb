-- SUMMARY: Why the standard writer stops, and how it reports that.
import JsonText.Decimal.Basic
import JsonText.Lexeme.Number

/-!
# Reports

A value cannot be written because of a key or because one of its parts refuses.
The refusal comes with a message of its own. If that message ends in a
position, ` at line L column C`, the position is taken off and spelled anew; a
position in line zero is no position and is left out.
-/

namespace JsonText.Standard

/-- Why a value cannot be written. -/
inductive Error where
  /-- A key that has no text. -/
  | keyNotString
  /-- A key that is an infinite or undefined number. -/
  | keyNotFinite
  /-- A part that refuses with a message. -/
  | refused (message : String)
deriving DecidableEq, Repr

/-! ## Positions -/

/-- The text before the last occurrence of `w`, and the text behind it. -/
def splitLast? (w s : List Char) : Option (List Char × List Char) :=
  (go [] none s).map fun parts => (parts.1.reverse, parts.2)
where
  /-- The search, with the text already passed and the text before the last occurrence, both
  in reverse. -/
  go (passed : List Char) (last : Option (List Char × List Char)) :
      List Char → Option (List Char × List Char)
    | [] => last
    | c :: s =>
      match Lexeme.word? w (c :: s) with
      | some (_, r) => go (c :: passed) (some (passed, r)) s
      | none => go (c :: passed) last s

/-- The number that a run of digits spells, if a word of 64 bits holds it. -/
def wordOfDigits? (ds : List Char) : Option Nat :=
  if ds = [] ∨ UInt64.size ≤ Decimal.ofDigits ds then none else some (Decimal.ofDigits ds)

/-- A message that ends in a position, as the text before it, the line and the column. -/
def position? (message : List Char) : Option (List Char × Nat × Nat) := do
  let (text, r) ← splitLast? " at line ".toList message
  let (line, r) := Lexeme.digits r
  let (_, r) ← Lexeme.word? " column ".toList r
  let (column, r) := Lexeme.digits r
  if r = [] then
    return (text, ← wordOfDigits? line, ← wordOfDigits? column)
  else none

/-- The message of a refusal as it is reported. -/
def report (message : String) : String :=
  match position? message.toList with
  | none => message
  | some (text, 0, _) => String.ofList text
  | some (text, line, column) =>
    String.ofList text ++ " at line " ++ toString line ++ " column " ++ toString column

/-- The report of an error. -/
def Error.display : Error → String
  | keyNotString => "key must be a string"
  | keyNotFinite => "float key must be finite (got NaN or +/-inf)"
  | refused message => report message

end JsonText.Standard
