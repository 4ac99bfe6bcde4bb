-- SUMMARY: The lexical grammar of JSON, and reading back any text of its lexemes.
import JsonText.Proofs.Document.Escape
import JsonText.Proofs.Token.Readable

/-!
# The lexical grammar

The lexemes of JSON are six punctuation characters, three words, strings and
numbers. The scanner reads them back from any text that has them in order with
blanks around them, as long as two numbers have a blank between them. Nothing
else needs one: not two words, nor two strings, nor a number behind a word.
-/

namespace JsonText.Token

/-- The token is a lexeme of JSON, under its kind. -/
inductive IsLexeme : Token → Prop where
  | braceOpen : IsLexeme ⟨.braceOpen, "\x7b"⟩
  | braceClose : IsLexeme ⟨.braceClose, "\x7d"⟩
  | bracketOpen : IsLexeme ⟨.bracketOpen, "["⟩
  | bracketClose : IsLexeme ⟨.bracketClose, "]"⟩
  | comma : IsLexeme ⟨.comma, ","⟩
  | colon : IsLexeme ⟨.colon, ":"⟩
  | trueWord : IsLexeme ⟨.trueWord, "true"⟩
  | falseWord : IsLexeme ⟨.falseWord, "false"⟩
  | nullWord : IsLexeme ⟨.nullWord, "null"⟩
  | string {s : String} (h : Escape.isString s = true) : IsLexeme ⟨.string, s⟩
  | number {s : String} (h : Lexeme.IsNumber s.toList) : IsLexeme ⟨.number, s⟩

/-- Both tokens are numbers. -/
def BothNumbers (a b : Token) : Prop :=
  a.kind = .number ∧ b.kind = .number

theorem IsLexeme.isPlain {t : Token} (h : IsLexeme t) : IsPlain t := by
  cases h with
  | string hs => exact isPlain_of_isClosed (Escape.isClosed_of_isString hs)
  | number hn => exact isPlain_of_ne_string hn (by simp) (by simp)
  | _ => exact isPlain_of_ne_string rfl (by decide) (by decide)

theorem IsLexeme.kind_ne_unknown {t : Token} (h : IsLexeme t) : t.kind ≠ .unknown := by
  cases h <;> simp

/-- Unknown text is visible. -/
theorem mem_visible_of_unknown {s : List Char} {t : Token} (ht : t ∈ scan s)
    (hk : t.kind = .unknown) : t ∈ visible s := by
  apply List.mem_filter.mpr
  refine ⟨ht, Filter.keeps_dropWhitespace.mpr ?_⟩
  rw [hk]
  decide

/-- The lexemes of JSON are read back from any text that has them in order with blanks around
them, if a blank stands between neighbours that are both numbers. No part of the text is
unknown. -/
theorem tokenize_lexemes {ts : List Token} {text : String} (hts : ∀ t ∈ ts, IsLexeme t)
    (h : Spaced BothNumbers ts text.toList) :
    tokenize text { dropWhitespace := true } = ts ∧
      ∀ t ∈ tokenize text, t.kind ≠ .unknown := by
  have hr : Readable ts := readable_of_isPlain fun t ht => (hts t ht).isPlain
  have hspaced : Spaced Fuses ts text.toList := by
    apply h.imp
    apply List.Pairwise.isChain
    exact List.pairwise_of_forall fun _ _ hab => ⟨hab.1, hab.2.2.2.1⟩
  have hvis : visible text.toList = ts := hspaced.visible_eq hr
  constructor
  · rw [tokenize_dropWhitespace, hvis]
  · intro t ht hk
    have hmem := mem_visible_of_unknown (List.mem_filter.mp ht).1 hk
    rw [hvis] at hmem
    exact (hts t hmem).kind_ne_unknown hk

/-- A string that ends in an escaped backslash, two numbers and a word: only the numbers need
the tab between them. -/
theorem tokenize_lexemes_dense :
    Spaced BothNumbers
        [⟨.string, "\"é\\\\\""⟩, ⟨.number, "-0"⟩, ⟨.number, "1.5e-3"⟩, ⟨.nullWord, "null"⟩]
        "\"é\\\\\"-0\t1.5e-3null\n".toList ∧
      tokenize "\"é\\\\\"-0\t1.5e-3null\n" { dropWhitespace := true } =
        [⟨.string, "\"é\\\\\""⟩, ⟨.number, "-0"⟩, ⟨.number, "1.5e-3"⟩, ⟨.nullWord, "null"⟩] := by
  have hzero : Lexeme.number? "-0".toList = some ("-0".toList, []) := by decide
  have hsmall : Lexeme.number? "1.5e-3".toList = some ("1.5e-3".toList, []) := by decide
  have hspaced : Spaced BothNumbers
      [⟨.string, "\"é\\\\\""⟩, ⟨.number, "-0"⟩, ⟨.number, "1.5e-3"⟩, ⟨.nullWord, "null"⟩]
      "\"é\\\\\"-0\t1.5e-3null\n".toList := by
    exact .cons (g := []) (by decide) (by rintro u - ⟨⟨⟩, -⟩) <|
      .cons (g := []) (by decide) (by rintro u - -; exact ⟨'\t', by decide, by decide⟩) <|
      .cons (g := ['\t']) (by decide) (by rintro u ⟨⟩ ⟨-, ⟨⟩⟩) <|
      .cons (g := []) (by decide) (by rintro u - ⟨⟨⟩, -⟩) <| .nil (g := ['\n']) (by decide)
  refine ⟨hspaced, (tokenize_lexemes ?_ hspaced).1⟩
  simp only [List.forall_mem_cons]
  exact ⟨.string (by decide), .number (Lexeme.isNumber_of_number? hzero).1,
    .number (Lexeme.isNumber_of_number? hsmall).1, .nullWord, List.forall_mem_nil _⟩

end JsonText.Token
