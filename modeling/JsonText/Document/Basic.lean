-- SUMMARY: JSON documents with their scalars and keys as spelled.

/-!
# Documents

A document is a JSON value tree whose strings, keys and numbers keep the
spelling of the source. Members keep their order, and a key may occur twice.
-/

namespace JsonText

/-- A JSON value tree. Strings and keys are spelled with their quotes. -/
inductive Document where
  | null
  | bool (b : Bool)
  /-- A number, as spelled. -/
  | number (spelling : String)
  /-- A string, as spelled. -/
  | string (spelling : String)
  | array (items : List Document)
  | object (members : List (String × Document))
deriving Repr

namespace Document

/-- The word for a truth value. -/
def boolWord (b : Bool) : String :=
  if b then "true" else "false"

/-- The document is neither an array nor an object. -/
def isScalar : Document → Bool
  | array _ | object _ => false
  | _ => true

end Document

end JsonText
