-- SUMMARY: Tokens, classification by the leading character, and filters over token lists.
import JsonText.Token.Kind

/-!
# Tokens

A token is a piece of the source with the role it plays. Its text is always the
text as written: nothing here decodes an escape or the value of a number.
-/

namespace JsonText

/-- A piece of JSON text and its kind. -/
structure Token where
  /-- The role of the piece. -/
  kind : Token.Kind
  /-- The piece exactly as it stands in the source. -/
  text : String
deriving DecidableEq, Repr

namespace Token

/-- The token over `cs` whose kind is the one that its leading character announces. -/
def ofChars (cs : List Char) : Token :=
  ⟨.ofChars cs, String.ofList cs⟩

/-- The token over `text` whose kind is the one that its leading character announces. -/
def classify (text : String) : Token :=
  ⟨.ofChars text.toList, text⟩

/-- The token over a run of text that is no lexeme. -/
def unknown (cs : List Char) : Token :=
  ⟨.unknown, String.ofList cs⟩

@[simp] theorem classify_ofList (cs : List Char) : classify (String.ofList cs) = ofChars cs := by
  simp [classify, ofChars]

@[simp] theorem kind_ofChars (cs : List Char) : (ofChars cs).kind = .ofChars cs := rfl

@[simp] theorem toList_text_ofChars (cs : List Char) : (ofChars cs).text.toList = cs := by
  simp [ofChars]

@[simp] theorem kind_unknown (cs : List Char) : (unknown cs).kind = .unknown := rfl

@[simp] theorem toList_text_unknown (cs : List Char) : (unknown cs).text.toList = cs := by
  simp [unknown]

/-- The texts of the tokens, one after another. -/
def concat (ts : List Token) : String :=
  String.join (ts.map (·.text))

/-! ## Filters -/

/-- Which of the tokens without structure are left out of a token list. -/
structure Filter where
  /-- Leave out whitespace. -/
  dropWhitespace : Bool := false
  /-- Leave out unknown text. -/
  dropUnknown : Bool := false
deriving DecidableEq, Repr

namespace Filter

/-- Leaves nothing out. -/
def nothing : Filter := {}

/-- Keeps only the tokens that carry structure or values. -/
def structural : Filter where
  dropWhitespace := true
  dropUnknown := true

/-- The filter lets tokens of this kind through. -/
def keeps (f : Filter) : Kind → Bool
  | .whitespace => !f.dropWhitespace
  | .unknown => !f.dropUnknown
  | _ => true

@[simp] theorem keeps_nothing (k : Kind) : nothing.keeps k = true := by
  cases k <;> rfl

theorem keeps_structural {k : Kind} :
    structural.keeps k = true ↔ k ≠ .whitespace ∧ k ≠ .unknown := by
  cases k <;> decide

end Filter

end Token

end JsonText
