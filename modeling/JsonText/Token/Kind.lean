-- SUMMARY: The kinds of tokens, their names, and the kind that a leading character announces.

/-!
# Token kinds

A kind says what role a piece of JSON text plays. The leading character of a
piece alone decides its kind: `Kind.ofLeadChar` does not look at what follows,
so `-` announces a number whatever comes after it. That this is sound on the
pieces that the scanner cuts is a fact about the scanner, not about this table.
-/

namespace JsonText

/-- The role of a token. The set is closed. -/
inductive Token.Kind where
  /-- A run of text that is no lexeme. -/
  | unknown
  /-- A run of spaces, tabs, carriage returns and line feeds. -/
  | whitespace
  | braceOpen
  | braceClose
  | bracketOpen
  | bracketClose
  | comma
  | colon
  /-- The word `true`. -/
  | trueWord
  /-- The word `false`. -/
  | falseWord
  /-- The word `null`. -/
  | nullWord
  /-- A quoted string, escapes as written. -/
  | string
  /-- A number, as written. -/
  | number
deriving DecidableEq, Repr

namespace Token.Kind

/-- Every kind, once. -/
def all : List Kind :=
  [unknown, whitespace, braceOpen, braceClose, bracketOpen, bracketClose, comma, colon,
    trueWord, falseWord, nullWord, string, number]

/-- The name under which a token dump lists the kind. -/
def name : Kind → String
  | unknown => "Unknown"
  | whitespace => "Whitespace"
  | braceOpen => "BraceOpen"
  | braceClose => "BraceClose"
  | bracketOpen => "BracketOpen"
  | bracketClose => "BracketClose"
  | comma => "Comma"
  | colon => "Colon"
  | trueWord => "True"
  | falseWord => "False"
  | nullWord => "Null"
  | string => "String"
  | number => "Number"

/-- The kind with the given name. -/
def ofName? (s : String) : Option Kind :=
  all.find? fun k => k.name == s

/-- The kind that a leading character announces. -/
def ofLeadChar (c : Char) : Kind :=
  match c with
  | ' ' | '\t' | '\r' | '\n' => whitespace
  | '{' => braceOpen
  | '}' => braceClose
  | '[' => bracketOpen
  | ']' => bracketClose
  | ',' => comma
  | ':' => colon
  | 't' => trueWord
  | 'f' => falseWord
  | 'n' => nullWord
  | '"' => string
  | '-' => number
  | c => if c.isDigit then number else unknown

/-- The kind of a whole piece of text; the empty text is unknown. -/
def ofChars : List Char → Kind
  | [] => unknown
  | c :: _ => ofLeadChar c

/-- The kind opens a container. -/
def isOpen : Kind → Bool
  | braceOpen | bracketOpen => true
  | _ => false

/-- The kind closes a container. -/
def isClose : Kind → Bool
  | braceClose | bracketClose => true
  | _ => false

theorem mem_all (k : Kind) : k ∈ all := by
  cases k <;> decide

theorem name_inj {k l : Kind} : k.name = l.name ↔ k = l := by
  cases k <;> cases l <;> decide

/-- A kind is found again under its name. -/
@[simp] theorem ofName?_name (k : Kind) : ofName? k.name = some k := by
  cases k <;> decide

end Token.Kind

end JsonText
