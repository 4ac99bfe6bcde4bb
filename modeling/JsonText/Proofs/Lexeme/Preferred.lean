-- SUMMARY: The lexeme that is read is the match that the pattern for all lexemes prefers.
import JsonText.Lexeme.Search
import JsonText.Proofs.Lexeme.Closing
import JsonText.Proofs.Lexeme.Pattern

/-!
# The pattern for lexemes

One pattern stands for all lexemes: blanks, punctuation, words, strings and
numbers, as alternatives in that order. A lexeme is the match that this pattern
prefers. Strings apart, few choices are ever taken back: an optional part of a
number is given up where its digits are missing, and nothing is gained by giving
up a sign.
-/

namespace JsonText

open Lexeme

namespace Pattern

/-! ## Blanks, punctuation and words -/

/-- Blanks, as many as there are. -/
def blanks : Pattern :=
  atLeastOnce (one isBlank)

/-- One of the six punctuation characters. -/
def punctuation : Pattern :=
  orElse (char '{') (orElse (char '}') (orElse (char '[') (orElse (char ']')
    (orElse (char ',') (char ':')))))

/-- The characters of a word, one behind the other. -/
def word (w : List Char) : Pattern :=
  w.foldr (fun c rest => seq (char c) rest) empty

/-- One of the three words that stand for values. -/
def anyWord : Pattern :=
  orElse (word "true".toList) (orElse (word "false".toList) (word "null".toList))

theorem preferred?_blanks (s : List Char) : blanks.preferred? s = blanks? s := by
  rw [blanks, preferred?_atLeastOnce_one, blanks?]
  split
  · next h => rw [h]
  · next h =>
    split
    · next h' => exact absurd h' h
    · rfl

theorem preferred?_char_cons (c d : Char) (s : List Char) :
    (char c).preferred? (d :: s) = if d = c then some ([d], s) else none := by
  rw [preferred?, char, readings]
  by_cases h : d = c
  · simp [h]
  · simp [h]

theorem preferred?_punctuation (s : List Char) :
    punctuation.preferred? s = punctuation? s := by
  cases s with
  | nil => rfl
  | cons c s =>
      have hor : ∀ (p q : Prop) [Decidable p] [Decidable q],
          (if p then some ([c], s) else none).or (if q then some ([c], s) else none) =
            if p ∨ q then some ([c], s) else none := by
        intro p q _ _
        by_cases hp : p <;> simp [hp]
      simp only [punctuation, preferred?_orElse, preferred?_char_cons, punctuation?, isPunctuation,
        hor, Bool.or_eq_true, beq_iff_eq, or_assoc]

theorem preferred?_word (w s : List Char) : (word w).preferred? s = word? w s := by
  induction w generalizing s with
  | nil =>
      rw [word, List.foldr_nil, preferred?, readings_empty]
      rfl
  | cons c w ih =>
      rw [word, List.foldr_cons, ← word, char]
      cases s with
      | nil => rfl
      | cons d s =>
          rw [preferred?_one_seq, ih, word?, word?]
          by_cases hd : d = c
          · by_cases hp : w.isPrefixOf s = true
            · simp [hd, hp, prepend]
            · simp [hd, hp]
          · simp [hd, Ne.symm hd]

theorem preferred?_anyWord (s : List Char) : anyWord.preferred? s = anyWord? s := by
  rw [anyWord, preferred?_orElse, preferred?_orElse, preferred?_word, preferred?_word,
    preferred?_word, anyWord?]
  simp only [Option.orElse_eq_orElse, Option.orElse_eq_or]

/-! ## Numbers -/

/-- One digit or more. -/
def digits : Pattern :=
  atLeastOnce (one Char.isDigit)

/-- A zero alone, or digits that do not begin with zero. -/
def integer : Pattern :=
  orElse (char '0') (seq (one fun c => c.isDigit && c != '0') (many (one Char.isDigit)))

/-- An optional fraction. -/
def fraction : Pattern :=
  optional (seq (char '.') digits)

/-- An optional exponent. -/
def exponent : Pattern :=
  optional (seq (one fun c => c == 'e' || c == 'E')
    (seq (optional (one fun c => c == '+' || c == '-')) digits))

theorem preferred?_digits (s : List Char) :
    digits.preferred? s =
      if (Lexeme.digits s).1 = [] then none else some (Lexeme.digits s) :=
  preferred?_atLeastOnce_one Char.isDigit s

theorem preferred?_integer (s : List Char) : integer.preferred? s = integer? s := by
  cases s with
  | nil => rfl
  | cons c s =>
      rw [integer, preferred?_orElse, preferred?_char_cons, preferred?_one_seq,
        preferred?_many_one, integer?]
      by_cases h0 : c = '0'
      · simp [h0]
      · cases hc : c.isDigit with
        | false => simp [h0]
        | true => simp [h0, prepend, Lexeme.digits]

theorem preferred?_fraction (s : List Char) :
    fraction.preferred? s = some (Lexeme.fraction s) := by
  rw [fraction, preferred?_optional, char]
  cases s with
  | nil => rfl
  | cons c s =>
      rw [preferred?_one_seq, preferred?_digits]
      by_cases hc : c = '.'
      · rw [hc, fraction_point]
        by_cases hs : (Lexeme.digits s).1 = []
        · simp [hs]
        · simp [hs, prepend]
      · rw [fraction_of_ne_point (by simpa using hc)]
        simp [hc]

/-- A sign is never given up, since it is no digit. Without digits behind it there is no match. -/
theorem preferred?_sign_digits (s : List Char) :
    (seq (optional (one fun c => c == '+' || c == '-')) digits).preferred? s =
      if (Lexeme.digits (exponentSign s).2).1 = [] then none
      else some ((exponentSign s).1 ++ (Lexeme.digits (exponentSign s).2).1,
        (Lexeme.digits (exponentSign s).2).2) := by
  rw [preferred?_optional_seq]
  cases s with
  | nil => rfl
  | cons c s =>
      rw [preferred?_one_seq, preferred?_digits, preferred?_digits]
      by_cases hc : c = '+' ∨ c = '-'
      · -- Giving the sign up leaves it to the digits.
        have hdigit : c.isDigit = false := by rcases hc with rfl | rfl <;> rfl
        have hnone : Lexeme.digits (c :: s) = ([], c :: s) := by simp [Lexeme.digits, hdigit]
        rw [exponentSign_sign hc, hnone]
        by_cases hs : (Lexeme.digits s).1 = []
        · simp [hs]
        · simp [hs, hc, prepend]
      · rw [exponentSign_of_ne_sign (by simpa [not_or] using hc)]
        simp [hc]

theorem preferred?_exponent (s : List Char) :
    exponent.preferred? s = some (Lexeme.exponent s) := by
  rw [exponent, preferred?_optional]
  cases s with
  | nil => rfl
  | cons c s =>
      rw [preferred?_one_seq, preferred?_sign_digits]
      by_cases hc : c = 'e' ∨ c = 'E'
      · rw [exponent_letter hc]
        by_cases hs : (Lexeme.digits (exponentSign s).2).1 = []
        · simp [hs]
        · simp [hs, hc, prepend]
      · rw [exponent_of_ne_letter (by simpa [not_or] using hc)]
        simp [hc]

/-- A number without its sign. -/
def unsigned : Pattern :=
  seq integer (seq fraction exponent)

/-- A number. -/
def number : Pattern :=
  seq (optional (char '-')) unsigned

theorem preferred?_unsigned (s : List Char) :
    unsigned.preferred? s = (integer? s).map fun p =>
      (p.1 ++ ((Lexeme.fraction p.2).1 ++ (Lexeme.exponent (Lexeme.fraction p.2).2).1),
        (Lexeme.exponent (Lexeme.fraction p.2).2).2) := by
  have hfraction : fraction.Total := fun s => ⟨_, preferred?_fraction s⟩
  have hexponent : exponent.Total := fun s => ⟨_, preferred?_exponent s⟩
  rw [unsigned, preferred?_seq (hfraction.seq hexponent), preferred?_integer]
  cases integer? s with
  | none => rfl
  | some p =>
      rw [Option.bind_some, preferred?_seq hexponent, preferred?_fraction, Option.bind_some,
        preferred?_exponent]
      rfl

/-- A minus is never given up, since no integer begins with it. -/
theorem preferred?_number (s : List Char) : number.preferred? s = number? s := by
  rw [number, preferred?_optional_seq, preferred?_unsigned]
  cases s with
  | nil => rfl
  | cons c s =>
      rw [char, preferred?_one_seq, preferred?_unsigned, number?]
      by_cases hc : c = '-'
      · subst hc
        have hnone : integer? ('-' :: s) = none := rfl
        rw [hnone]
        cases h : integer? s <;> simp [sign, h, prepend]
      · rw [sign_of_ne_minus (by simpa using hc)]
        cases h : integer? (c :: s) <;> simp [hc]

/-! ## All lexemes -/

/-- A lexeme of any class. -/
def lexeme : Pattern :=
  orElse blanks (orElse punctuation (orElse anyWord (orElse string number)))

theorem preferred?_string_eq_quoted? (s : List Char) : string.preferred? s = quoted? s := by
  cases s with
  | nil => rfl
  | cons c s =>
      by_cases hc : c = '"'
      · rw [hc, quoted?_eq_preferred?]
      · rw [quoted?_of_ne_quote hc, string, char, preferred?_one_seq, if_neg (by simpa using hc)]

theorem preferred?_lexeme (s : List Char) : lexeme.preferred? s = read? s := by
  rw [lexeme, preferred?_orElse, preferred?_orElse, preferred?_orElse, preferred?_orElse,
    preferred?_blanks, preferred?_punctuation, preferred?_anyWord, preferred?_string_eq_quoted?,
    preferred?_number, read?]
  simp only [Option.orElse_eq_orElse, Option.orElse_eq_or]

end Pattern

end JsonText
