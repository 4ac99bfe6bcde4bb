-- SUMMARY: Recognisers for blanks, punctuation and words at the head of a text.

/-!
# Lexemes without inner structure

A recogniser looks at the head of a text and, if a lexeme of its class stands
there, returns the lexeme and what follows it. `Cuts` says what every
recogniser has in common: the two parts are the text again, and the lexeme is
not empty.
-/

namespace JsonText

/-- Lexeme and rest are the text `s` again, and the lexeme is not empty. -/
def Lexeme.Cuts (s lexeme rest : List Char) : Prop :=
  lexeme ++ rest = s ∧ lexeme ≠ []

namespace Lexeme

/-! ## Blanks -/

/-- Blank characters are space, tab, carriage return and line feed, and no others. -/
def isBlank (c : Char) : Bool :=
  c == ' ' || c == '\t' || c == '\r' || c == '\n'

/-- A run of blanks, as long as it can be. -/
def blanks? (s : List Char) : Option (List Char × List Char) :=
  match s.takeWhile isBlank with
  | [] => none
  | run => some (run, s.dropWhile isBlank)

theorem cuts_of_blanks? {s m r : List Char} (h : blanks? s = some (m, r)) : Cuts s m r := by
  unfold blanks? at h
  split at h
  · simp at h
  · next hne =>
    simp only [Option.some.injEq, Prod.mk.injEq] at h
    obtain ⟨rfl, rfl⟩ := h
    exact ⟨List.takeWhile_append_dropWhile, hne⟩

/-! ## Punctuation -/

/-- The six punctuation characters. -/
def isPunctuation (c : Char) : Bool :=
  c == '{' || c == '}' || c == '[' || c == ']' || c == ',' || c == ':'

/-- A single punctuation character. -/
def punctuation? : List Char → Option (List Char × List Char)
  | [] => none
  | c :: r => if isPunctuation c then some ([c], r) else none

theorem cuts_of_punctuation? {s m r : List Char} (h : punctuation? s = some (m, r)) :
    Cuts s m r := by
  cases s with
  | nil => simp [punctuation?] at h
  | cons c t =>
    simp only [punctuation?] at h
    split at h
    · simp only [Option.some.injEq, Prod.mk.injEq] at h
      obtain ⟨rfl, rfl⟩ := h
      exact ⟨rfl, by simp⟩
    · simp at h

/-! ## Words -/

/-- The word `w` itself, whatever follows it. -/
def word? (w s : List Char) : Option (List Char × List Char) :=
  if w.isPrefixOf s then some (w, s.drop w.length) else none

theorem cuts_of_word? {w s m r : List Char} (hw : w ≠ []) (h : word? w s = some (m, r)) :
    Cuts s m r := by
  unfold word? at h
  split at h
  · next hp =>
    simp only [Option.some.injEq, Prod.mk.injEq] at h
    obtain ⟨rfl, rfl⟩ := h
    obtain ⟨t, rfl⟩ := List.isPrefixOf_iff_prefix.mp hp
    exact ⟨by simp, hw⟩
  · simp at h

/-- One of the three words that stand for values. -/
def anyWord? (s : List Char) : Option (List Char × List Char) :=
  word? "true".toList s <|> word? "false".toList s <|> word? "null".toList s

theorem cuts_of_anyWord? {s m r : List Char} (h : anyWord? s = some (m, r)) : Cuts s m r := by
  simp only [anyWord?, Option.orElse_eq_orElse, Option.orElse_eq_or, Option.or_eq_some_iff] at h
  rcases h with h | ⟨-, h | ⟨-, h⟩⟩ <;> exact cuts_of_word? (by decide) h

end Lexeme

end JsonText
