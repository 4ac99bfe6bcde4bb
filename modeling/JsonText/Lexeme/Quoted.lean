-- SUMMARY: The recogniser for quoted strings.
import JsonText.Lexeme.Basic

/-!
# Quoted strings

A string runs from a double quote to a later one. Which later one decides
between three cases:

* if some later quote stands behind an even number of backslashes, the first
  such quote closes the string;
* otherwise, if there is a later quote at all, the last quote of the text
  closes it, although a backslash stands before that quote;
* otherwise there is no string.

Line feeds and other control characters are ordinary characters here.
-/

namespace JsonText.Lexeme

/-- The text before the first quote that no backslash takes along, and the text after
it. A backslash takes the next character along, whatever it is. -/
def beforeBareQuote? (s : List Char) : Option (List Char × List Char) :=
  go [] s
where
  /-- The search, with the text already passed in reverse. -/
  go (passed : List Char) : List Char → Option (List Char × List Char)
    | [] => none
    | '"' :: r => some (passed.reverse, r)
    | '\\' :: c :: r => go (c :: '\\' :: passed) r
    | c :: r => go (c :: passed) r

/-- The text before the last quote of all, and the text after it. -/
def beforeLastQuote? (s : List Char) : Option (List Char × List Char) :=
  match s.reverse.dropWhile (· != '"') with
  | [] => none
  | _ :: body => some (body.reverse, (s.reverse.takeWhile (· != '"')).reverse)

/-- A quoted string. -/
def quoted? : List Char → Option (List Char × List Char)
  | '"' :: s => (beforeBareQuote? s <|> beforeLastQuote? s).map fun (body, r) =>
      ('"' :: body ++ ['"'], r)
  | _ => none

theorem append_of_beforeBareQuote?_go {passed s b r : List Char}
    (h : beforeBareQuote?.go passed s = some (b, r)) : b ++ '"' :: r = passed.reverse ++ s := by
  fun_induction beforeBareQuote?.go passed s with
  | case1 => simp at h
  | case2 passed r =>
    simp only [Option.some.injEq, Prod.mk.injEq] at h
    obtain ⟨rfl, rfl⟩ := h
    rfl
  | case3 passed c r ih => simpa using ih h
  | case4 passed c r _ _ ih => simpa using ih h

theorem append_of_beforeBareQuote? {s b r : List Char} (h : beforeBareQuote? s = some (b, r)) :
    b ++ '"' :: r = s := by
  simpa using append_of_beforeBareQuote?_go h

theorem append_of_beforeLastQuote? {s b r : List Char} (h : beforeLastQuote? s = some (b, r)) :
    b ++ '"' :: r = s := by
  unfold beforeLastQuote? at h
  split at h
  · simp at h
  · next q body hd =>
    simp only [Option.some.injEq, Prod.mk.injEq] at h
    obtain ⟨rfl, rfl⟩ := h
    have hq : q = '"' := by
      have := List.head?_dropWhile_not (· != '"') s.reverse
      simpa [hd] using this
    have happ := List.takeWhile_append_dropWhile (p := (· != '"')) (l := s.reverse)
    rw [hd, hq] at happ
    have := congrArg List.reverse happ
    simpa using this

theorem cuts_of_quoted? {s m r : List Char} (h : quoted? s = some (m, r)) : Cuts s m r := by
  unfold quoted? at h
  split at h
  · next s =>
    simp only [Option.orElse_eq_orElse, Option.orElse_eq_or, Option.map_eq_some_iff,
      Option.or_eq_some_iff, Prod.mk.injEq, Prod.exists] at h
    obtain ⟨b, r', hb, rfl, rfl⟩ := h
    refine ⟨?_, by simp⟩
    rcases hb with hb | ⟨-, hb⟩
    · simp [append_of_beforeBareQuote? hb]
    · simp [append_of_beforeLastQuote? hb]
  · simp at h

end JsonText.Lexeme
