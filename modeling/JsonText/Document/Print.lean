-- SUMMARY: The compact and the indented text of a document, and its tokens.
import JsonText.Document.Basic
import JsonText.Layout.Indent
import JsonText.Token.Basic

/-!
# Printing documents

`compact` and `pretty` go down the tree and need no tokens: they say what the
two layouts are on a document. `tokens` lists the tokens of a document in
order, without blanks.
-/

namespace JsonText.Document

/-! ## One run -/

mutual

/-- The text `out` and the document behind it, without blanks. -/
def addCompact (out : String) : Document → String
  | null => out ++ "null"
  | bool b => out ++ boolWord b
  | number s | string s => out ++ s
  | array [] => out ++ "[]"
  | array (d :: ds) => addCompactItems (addCompact (out ++ "[") d) ds ++ "]"
  | object [] => out ++ "\x7b\x7d"
  | object ((k, d) :: ms) =>
    addCompactMembers (addCompact (out ++ "\x7b" ++ k ++ ":") d) ms ++ "\x7d"

/-- The text `out` and the items behind it, each behind a comma. -/
def addCompactItems (out : String) : List Document → String
  | [] => out
  | d :: ds => addCompactItems (addCompact (out ++ ",") d) ds

/-- The text `out` and the members behind it, each behind a comma. -/
def addCompactMembers (out : String) : List (String × Document) → String
  | [] => out
  | (k, d) :: ms => addCompactMembers (addCompact (out ++ "," ++ k ++ ":") d) ms

end

/-- The document without blanks between its tokens. -/
def compact (d : Document) : String :=
  addCompact "" d

/-! ## One value a line -/

mutual

/-- The document as it stands in a line indented by `depth`, without the end of that line. -/
def prettyAt (depth : Nat) : Document → String
  | null => "null"
  | bool b => boolWord b
  | number s | string s => s
  | array [] => "[]"
  | array (d :: ds) =>
    "[\n" ++ Layout.indent (depth + 1) ++ prettyAt (depth + 1) d ++ prettyItems (depth + 1) ds ++
      "\n" ++ Layout.indent depth ++ "]"
  | object [] => "\x7b\x7d"
  | object ((k, d) :: ms) =>
    "\x7b\n" ++ Layout.indent (depth + 1) ++ k ++ ": " ++ prettyAt (depth + 1) d ++
      prettyMembers (depth + 1) ms ++ "\n" ++ Layout.indent depth ++ "\x7d"

/-- The items behind the first one, each behind a comma and on a line of its own. -/
def prettyItems (depth : Nat) : List Document → String
  | [] => ""
  | d :: ds => ",\n" ++ Layout.indent depth ++ prettyAt depth d ++ prettyItems depth ds

/-- The members behind the first one, each behind a comma and on a line of its own. -/
def prettyMembers (depth : Nat) : List (String × Document) → String
  | [] => ""
  | (k, d) :: ms =>
    ",\n" ++ Layout.indent depth ++ k ++ ": " ++ prettyAt depth d ++ prettyMembers depth ms

end

/-- The document with one value a line. A scalar ends its line; a container does not. -/
def pretty (d : Document) : String :=
  prettyAt 0 d ++ if d.isScalar then "\n" else ""

/-! ## Tokens -/

mutual

/-- The tokens of the document, in order. -/
def tokens : Document → List Token
  | null => [⟨.nullWord, "null"⟩]
  | bool b => [⟨if b then .trueWord else .falseWord, boolWord b⟩]
  | number s => [⟨.number, s⟩]
  | string s => [⟨.string, s⟩]
  | array [] => [⟨.bracketOpen, "["⟩, ⟨.bracketClose, "]"⟩]
  | array (d :: ds) => ⟨.bracketOpen, "["⟩ :: tokens d ++ itemTokens ds ++ [⟨.bracketClose, "]"⟩]
  | object [] => [⟨.braceOpen, "\x7b"⟩, ⟨.braceClose, "\x7d"⟩]
  | object ((k, d) :: ms) =>
    ⟨.braceOpen, "\x7b"⟩ :: ⟨.string, k⟩ :: ⟨.colon, ":"⟩ :: tokens d ++ memberTokens ms ++
      [⟨.braceClose, "\x7d"⟩]

/-- The tokens of the items behind the first one, each behind a comma. -/
def itemTokens : List Document → List Token
  | [] => []
  | d :: ds => ⟨.comma, ","⟩ :: tokens d ++ itemTokens ds

/-- The tokens of the members behind the first one, each behind a comma. -/
def memberTokens : List (String × Document) → List Token
  | [] => []
  | (k, d) :: ms =>
    ⟨.comma, ","⟩ :: ⟨.string, k⟩ :: ⟨.colon, ":"⟩ :: tokens d ++ memberTokens ms

end

end JsonText.Document
