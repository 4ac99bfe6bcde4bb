-- SUMMARY: Serializing values through a writer of compact text, in one of the two layouts.
import JsonText.Layout.Basic
import JsonText.Value.Basic

/-!
# Serializing values

A writer turns values into compact JSON text, or reports why a value cannot be
written. It is a parameter here: both texts of a value are layouts of whatever the
writer gives, and its report becomes part of the one error there is.
-/

namespace JsonText

/-! ## Writers -/

/-- A writer of values as compact text. -/
structure Writer where
  /-- Why a value cannot be written. -/
  Error : Type
  /-- The report of an error. -/
  display : Error → String
  /-- The error of a part that refuses with a message. -/
  custom : String → Error
  /-- The text of a value. -/
  write : Value → Except Error String
  /-- The text of a value that stands for a key. -/
  key : Value → Except Error String

namespace Writer

/-- The compact text of an array, by the texts of its items. -/
def array (items : List String) : String :=
  "[" ++ ",".intercalate items ++ "]"

/-- The compact text of an object, by the texts of its members. -/
def object (members : List String) : String :=
  "\x7b" ++ ",".intercalate members ++ "\x7d"

/-- The compact text of a member, by those of its key and its value. -/
def member (key text : String) : String :=
  key ++ ":" ++ text

end Writer

/-! ## Errors -/

/-- The error of a value that cannot be serialized. -/
structure FormatterError where
  message : String
deriving DecidableEq, Repr

namespace FormatterError

/-- The error with a message. -/
def new (message : String) : FormatterError :=
  ⟨message⟩

/-- The report of the error. -/
def display (e : FormatterError) : String :=
  e.message

/-- The error of a writer, by its report. -/
def ofWriter (w : Writer) (e : w.Error) : FormatterError :=
  new ("Serialization failed: " ++ w.display e)

end FormatterError

/-! ## Both texts of a value -/

/-- A value with one part a line, indented by four spaces a level. -/
def serialize (w : Writer) (v : Value) : Except FormatterError String := do
  let compact ← (w.write v).mapError (.ofWriter w)
  return format compact

/-- A value without blanks between its tokens. -/
def serializeMinified (w : Writer) (v : Value) : Except FormatterError String := do
  let compact ← (w.write v).mapError (.ofWriter w)
  return minify compact

end JsonText
