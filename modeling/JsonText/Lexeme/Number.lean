-- SUMMARY: The recogniser for numbers.
import JsonText.Lexeme.Basic

/-!
# Numbers

A number is an optional minus, an integer part without superfluous zeros, and
then, each optional, a fraction and an exponent. A fraction or an exponent that
breaks off (`1.`, `2e+`) is no part of the number: it is left to the text that
follows.
-/

namespace JsonText.Lexeme

/-- The run of digits at the head of `s`, and what follows it. -/
def digits (s : List Char) : List Char × List Char :=
  (s.takeWhile Char.isDigit, s.dropWhile Char.isDigit)

/-- An optional minus. -/
def sign : List Char → List Char × List Char
  | '-' :: r => (['-'], r)
  | s => ([], s)

/-- The integer part: a zero alone, or digits that do not begin with zero. -/
def integer? : List Char → Option (List Char × List Char)
  | [] => none
  | c :: r =>
    if c == '0' then some ([c], r)
    else if c.isDigit then some (c :: (digits r).1, (digits r).2)
    else none

/-- An optional fraction: a point and at least one digit. -/
def fraction (s : List Char) : List Char × List Char :=
  match s with
  | '.' :: r =>
    match digits r with
    | ([], _) => ([], s)
    | (ds, r') => ('.' :: ds, r')
  | _ => ([], s)

/-- An optional plus or minus. -/
def exponentSign : List Char → List Char × List Char
  | '+' :: r => (['+'], r)
  | '-' :: r => (['-'], r)
  | s => ([], s)

/-- An optional exponent: the letter `e` or `E`, an optional sign, and at least one digit. -/
def exponent (s : List Char) : List Char × List Char :=
  match s with
  | [] => ([], s)
  | c :: r =>
    if c == 'e' || c == 'E' then
      match digits (exponentSign r).2 with
      | ([], _) => ([], s)
      | (ds, r') => (c :: ((exponentSign r).1 ++ ds), r')
    else ([], s)

/-- A number. -/
def number? (s : List Char) : Option (List Char × List Char) := do
  let (i, s₁) ← integer? (sign s).2
  let (f, s₂) := fraction s₁
  let (e, s₃) := exponent s₂
  some ((sign s).1 ++ i ++ f ++ e, s₃)

/-! ## Nothing is lost -/

theorem digits_append (s : List Char) : (digits s).1 ++ (digits s).2 = s :=
  List.takeWhile_append_dropWhile

theorem sign_append (s : List Char) : (sign s).1 ++ (sign s).2 = s := by
  unfold sign
  split <;> rfl

theorem cuts_of_integer? {s m r : List Char} (h : integer? s = some (m, r)) : Cuts s m r := by
  cases s with
  | nil => simp [integer?] at h
  | cons c t =>
    simp only [integer?] at h
    split at h
    · simp only [Option.some.injEq, Prod.mk.injEq] at h
      obtain ⟨rfl, rfl⟩ := h
      exact ⟨rfl, by simp⟩
    · split at h
      · simp only [Option.some.injEq, Prod.mk.injEq] at h
        obtain ⟨rfl, rfl⟩ := h
        exact ⟨by simp [digits_append], by simp⟩
      · simp at h

theorem fraction_append (s : List Char) : (fraction s).1 ++ (fraction s).2 = s := by
  unfold fraction
  split
  · next r =>
    split
    · rfl
    · next ds r' _ hd =>
      have := digits_append r
      rw [hd] at this
      simpa using this
  · rfl

theorem exponentSign_append (s : List Char) : (exponentSign s).1 ++ (exponentSign s).2 = s := by
  unfold exponentSign
  split <;> rfl

theorem exponent_append (s : List Char) : (exponent s).1 ++ (exponent s).2 = s := by
  unfold exponent
  split
  · rfl
  · next c r =>
    split
    · split
      · rfl
      · next ds r' _ hd =>
        have hs := exponentSign_append r
        have := digits_append (exponentSign r).2
        rw [hd] at this
        simp only [List.cons_append, List.append_assoc, this, hs]
    · rfl

theorem cuts_of_number? {s m r : List Char} (h : number? s = some (m, r)) : Cuts s m r := by
  unfold number? at h
  cases hi : integer? (sign s).2 with
  | none => simp [hi] at h
  | some p =>
    obtain ⟨i, s₁⟩ := p
    simp only [hi, Option.bind_eq_bind, Option.bind_some, Option.some.injEq, Prod.mk.injEq] at h
    obtain ⟨rfl, rfl⟩ := h
    obtain ⟨happ, hne⟩ := cuts_of_integer? hi
    refine ⟨?_, by simp [hne]⟩
    simp only [List.append_assoc, exponent_append, fraction_append, happ, sign_append]

end JsonText.Lexeme
