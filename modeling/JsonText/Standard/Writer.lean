-- SUMMARY: A writer of values as compact JSON text.
import JsonText.Decimal.Spelling
import JsonText.Document.Basic
import JsonText.Standard.Error
import JsonText.Standard.Quote
import JsonText.Value.Serialize

/-!
# The standard writer

This is the writer that programs use. It goes through a value from left to right,
each key before its value, and stops at the first part that cannot be written.
-/

namespace JsonText.Standard

open Writer (array object member)

/-! ## Scalars and keys -/

/-- A finite number as spelled; `null` for any other. -/
def spell (x : Binary) : String :=
  x.spell?.getD "null"

/-- A value as a key. Text is a key, and so are truth values and finite numbers, by their
spelling. A wrapper is a key if its content is one. -/
def key : Value → Except Error String
  | .str s | .collected s | .unitVariant s => .ok (quote s)
  | .char c => .ok (quote (String.singleton c))
  | .bool b => .ok ("\"" ++ Document.boolWord b ++ "\"")
  | .int n => .ok ("\"" ++ toString n ++ "\"")
  | .float x =>
    match x.spell? with
    | some s => .ok ("\"" ++ s ++ "\"")
    | none => .error .keyNotFinite
  | .present v | .newtypeStruct v => key v
  | .failing message => .error (.refused message)
  | _ => .error .keyNotString

/-! ## Values -/

mutual

/-- The text of a value. -/
def write : Value → Except Error String
  | .bool b => .ok (Document.boolWord b)
  | .int n => .ok (toString n)
  | .float x => .ok (spell x)
  | .char c => .ok (quote (String.singleton c))
  | .str s | .collected s | .unitVariant s => .ok (quote s)
  | .bytes bs => .ok (array (bs.map fun b => toString b.toNat))
  | .absent | .unit | .unitStruct => .ok "null"
  | .present v | .newtypeStruct v => write v
  | .newtypeVariant name v => do return object [member (quote name) (← write v)]
  | .seq vs | .tuple vs | .tupleStruct vs => do return array (← writeItems vs)
  | .tupleVariant name vs => do
    return object [member (quote name) (array (← writeItems vs))]
  | .map es => do return object (← writeEntries es)
  | .struct fs => do return object (← writeFields fs)
  | .structVariant name fs => do
    return object [member (quote name) (object (← writeFields fs))]
  | .failing message => .error (.refused message)

/-- The texts of items. -/
def writeItems : List Value → Except Error (List String)
  | [] => .ok []
  | v :: vs => do
    let text ← write v
    return text :: (← writeItems vs)

/-- The texts of named fields as members. -/
def writeFields : List (String × Value) → Except Error (List String)
  | [] => .ok []
  | (name, v) :: fs => do
    let text ← write v
    return member (quote name) text :: (← writeFields fs)

/-- The texts of entries as members. -/
def writeEntries : List (Value × Value) → Except Error (List String)
  | [] => .ok []
  | (k, v) :: es => do
    let key ← key k
    let text ← write v
    return member key text :: (← writeEntries es)

end

end JsonText.Standard

namespace JsonText

/-- The writer that programs use. -/
def Writer.standard : Writer where
  Error := Standard.Error
  display := Standard.Error.display
  custom := .refused
  write := Standard.write
  key := Standard.key

end JsonText
