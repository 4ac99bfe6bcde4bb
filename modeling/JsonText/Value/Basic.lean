-- SUMMARY: Values that can be serialized, and how tokens are among them.
import JsonText.Decimal.Binary
import JsonText.Token.Basic

/-!
# Values

A value is what a program hands over to be serialized, as a writer gets to see
it: scalars, wrappers, the cases of a choice, sequences, maps and records. How
a type of the program is presented as a value is up to its encoding. Tokens are
such a type.
-/

namespace JsonText

/-- A value to be serialized. -/
inductive Value where
  | bool (b : Bool)
  /-- An integer of any width, with or without a sign. -/
  | int (n : Int)
  | float (x : Binary)
  | char (c : Char)
  | str (s : String)
  /-- A text that is handed over in pieces. -/
  | collected (s : String)
  /-- A string of bytes. -/
  | bytes (bs : List UInt8)
  /-- The optional value that is not there. -/
  | absent
  /-- An optional value that is there. -/
  | present (v : Value)
  | unit
  | unitStruct
  /-- A case without content. -/
  | unitVariant (name : String)
  /-- A wrapper with a name. -/
  | newtypeStruct (v : Value)
  /-- A case with one value. -/
  | newtypeVariant (name : String) (v : Value)
  | seq (items : List Value)
  | tuple (items : List Value)
  | tupleStruct (items : List Value)
  /-- A case with several values. -/
  | tupleVariant (name : String) (items : List Value)
  /-- Entries with values as keys, in the order in which they are handed over. -/
  | map (entries : List (Value × Value))
  /-- Named fields, in the order in which they are handed over. -/
  | struct (fields : List (String × Value))
  /-- A case with named fields. -/
  | structVariant (name : String) (fields : List (String × Value))
  /-- A part that refuses to be serialized. -/
  | failing (message : String)
deriving Repr

/-- How kinds, tokens and lists of tokens are presented as values. -/
structure TokenEncoding where
  kind : Token.Kind → Value
  token : Token → Value
  tokens : List Token → Value

/-- A kind is a case without content, a token a record of its kind and its text. -/
def TokenEncoding.derived : TokenEncoding where
  kind k := .unitVariant k.name
  token t := .struct [("kind", .unitVariant t.kind.name), ("text", .str t.text)]
  tokens ts :=
    .seq (ts.map fun t => .struct [("kind", .unitVariant t.kind.name), ("text", .str t.text)])

end JsonText
