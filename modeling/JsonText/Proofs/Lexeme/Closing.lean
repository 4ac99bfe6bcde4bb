-- SUMMARY: The quote at which a string ends is the one that the pattern for strings prefers.
import JsonText.Proofs.Lexeme.Escaped
import JsonText.Proofs.Lexeme.Pattern
import JsonText.Proofs.Token.Spelling

/-!
# The end of a string

As a pattern a string is a quote, any units, and a quote. The units overlap, so
almost any quote could close a string, and the preferences decide: a backslash
rather takes the next character along than stand alone. The first quote that is
left over then closes the string. If all quotes are taken along, the choices are
taken back from the end, and the last quote of the text is the first to come
free.
-/

namespace JsonText

open Lexeme

namespace Pattern

/-! ## The pattern for strings -/

/-- Two backslashes, a backslash and a quote, or any character but a quote. -/
def stringUnit : Pattern :=
  orElse (seq (char '\\') (char '\\')) (orElse (seq (char '\\') (char '"')) (one (· != '"')))

/-- The units of a string and its closing quote. -/
def stringRest : Pattern :=
  seq (many stringUnit) (char '"')

/-- A string with its quotes. -/
def string : Pattern :=
  seq (char '"') stringRest

theorem takes_stringUnit : stringUnit.Takes :=
  ((takes_one _).seq (takes_one _)).orElse (((takes_one _).seq (takes_one _)).orElse (takes_one _))

/-! ## One unit at a time -/

/-- Another unit is rather taken than the closing quote. -/
theorem preferred?_stringRest (s : List Char) :
    stringRest.preferred? s =
      ((seq stringUnit stringRest).preferred? s).or ((char '"').preferred? s) := by
  rw [← preferred?_orElse, preferred?, stringRest, readings_many_seq takes_stringUnit]
  rfl

theorem preferred?_stringRest_nil : stringRest.preferred? [] = none := by
  rw [preferred?_stringRest]
  rfl

theorem preferred?_stringRest_quote (s : List Char) :
    stringRest.preferred? ('"' :: s) = some (['"'], s) := by
  have hunit : stringUnit.readings ('"' :: s) = [] := by
    simp [stringUnit, char, readings]
  rw [preferred?_stringRest, preferred?, readings, hunit]
  rfl

theorem preferred?_stringRest_plain {c : Char} (hq : c ≠ '"') (hs : c ≠ '\\') (s : List Char) :
    stringRest.preferred? (c :: s) = (stringRest.preferred? s).map (prepend [c]) := by
  have hunit : stringUnit.readings (c :: s) = [([c], s)] := by
    simp [stringUnit, char, readings, hq, hs]
  have hclose : (char '"').preferred? (c :: s) = none := by
    simp [preferred?, char, readings, hq]
  rw [preferred?_stringRest, hclose, Option.or_none, preferred?, readings, hunit,
    List.flatMap_singleton, List.head?_map]
  rfl

/-- A backslash rather takes the next character along than stand alone. -/
theorem preferred?_stringRest_escape (c : Char) (s : List Char) :
    stringRest.preferred? ('\\' :: c :: s) =
      ((stringRest.preferred? s).map (prepend ['\\', c])).or
        ((stringRest.preferred? (c :: s)).map (prepend ['\\'])) := by
  have hclose : (char '"').preferred? ('\\' :: c :: s) = none := rfl
  rw [preferred?_stringRest, hclose, Option.or_none, preferred?, readings]
  by_cases hc : c = '\\' ∨ c = '"'
  · have hunit : stringUnit.readings ('\\' :: c :: s) =
        [(['\\', c], s), (['\\'], c :: s)] := by
      rcases hc with rfl | rfl <;> simp [stringUnit, char, readings, prepend]
    rw [hunit, List.flatMap_cons, List.flatMap_singleton, List.head?_append, List.head?_map,
      List.head?_map]
    rfl
  · -- Taken along or not, any other character is a unit.
    obtain ⟨hs, hq⟩ := not_or.mp hc
    have hunit : stringUnit.readings ('\\' :: c :: s) = [(['\\'], c :: s)] := by
      simp [stringUnit, char, readings, hq, hs]
    rw [hunit, List.flatMap_singleton, List.head?_map, ← preferred?,
      preferred?_stringRest_plain hq hs, Option.map_map]
    cases stringRest.preferred? s <;> rfl

theorem preferred?_stringRest_backslash : stringRest.preferred? ['\\'] = none := by
  have hunit : stringUnit.readings ['\\'] = [(['\\'], [])] := by
    decide
  rw [preferred?_stringRest, preferred?, readings, hunit, List.flatMap_singleton, List.head?_map,
    ← preferred?, preferred?_stringRest_nil]
  rfl

/-! ## Where the units end -/

/-- The first quote that no backslash takes along closes the string. -/
theorem preferred?_stringRest_of_passes {b : List Char} (hb : Passes b) (r : List Char) :
    stringRest.preferred? (b ++ '"' :: r) = some (b ++ ['"'], r) := by
  induction hb with
  | nil => exact preferred?_stringRest_quote r
  | escape c _ ih =>
      rw [List.cons_append, List.cons_append, preferred?_stringRest_escape, ih]
      rfl
  | plain hq hs _ ih =>
      rw [List.cons_append, preferred?_stringRest_plain hq hs, ih]
      rfl

/-- Without a quote there is nothing to close the string. -/
theorem preferred?_stringRest_eq_none :
    ∀ {s : List Char}, '"' ∉ s → stringRest.preferred? s = none
  | [], _ => preferred?_stringRest_nil
  | [c], h => by
      have hq : c ≠ '"' := fun hc => h (hc ▸ List.mem_singleton_self c)
      by_cases hs : c = '\\'
      · rw [hs]
        exact preferred?_stringRest_backslash
      · rw [preferred?_stringRest_plain hq hs, preferred?_stringRest_nil]
        rfl
  | c :: d :: s, h => by
      have hq : c ≠ '"' := fun hc => h (hc ▸ List.mem_cons_self)
      have htail : '"' ∉ d :: s := fun hd => h (List.mem_cons_of_mem c hd)
      by_cases hs : c = '\\'
      · have hend : '"' ∉ s := fun hd => htail (List.mem_cons_of_mem d hd)
        rw [hs, preferred?_stringRest_escape, preferred?_stringRest_eq_none hend,
          preferred?_stringRest_eq_none htail]
        rfl
      · rw [preferred?_stringRest_plain hq hs, preferred?_stringRest_eq_none htail]
        rfl

/-- Where backslashes take all quotes along, the last quote closes the string. -/
theorem preferred?_stringRest_last {r : List Char} (hr : '"' ∉ r) :
    ∀ {b : List Char}, beforeBareQuote? (b ++ '"' :: r) = none →
      stringRest.preferred? (b ++ '"' :: r) = some (b ++ ['"'], r)
  | [], h => absurd rfl (ne_quote_of_beforeBareQuote?_eq_none h)
  | [c], h => by
      have hq : c ≠ '"' := ne_quote_of_beforeBareQuote?_eq_none h
      by_cases hs : c = '\\'
      · -- The quote is the first half of no unit, so the backslash has to stand alone.
        rw [hs, List.singleton_append, preferred?_stringRest_escape,
          preferred?_stringRest_eq_none hr, preferred?_stringRest_quote]
        rfl
      · exact absurd rfl
          (ne_quote_of_beforeBareQuote?_eq_none (beforeBareQuote?_eq_none_of_plain hs h))
  | c :: d :: b, h => by
      have hq : c ≠ '"' := ne_quote_of_beforeBareQuote?_eq_none h
      by_cases hs : c = '\\'
      · subst hs
        have hb : beforeBareQuote? (b ++ '"' :: r) = none := beforeBareQuote?_eq_none_of_escape h
        rw [List.cons_append, List.cons_append, preferred?_stringRest_escape,
          preferred?_stringRest_last hr hb]
        rfl
      · have hb : beforeBareQuote? (d :: b ++ '"' :: r) = none :=
          beforeBareQuote?_eq_none_of_plain hs h
        rw [List.cons_append, preferred?_stringRest_plain hq hs,
          preferred?_stringRest_last hr hb]
        rfl

theorem preferred?_string (s : List Char) :
    string.preferred? ('"' :: s) = (stringRest.preferred? s).map (prepend ['"']) := by
  rw [preferred?, string, char, readings_one_seq, if_pos (by decide), List.head?_map]
  rfl

/-- The recogniser for strings finds the match that the pattern prefers. -/
theorem quoted?_eq_preferred? (s : List Char) :
    quoted? ('"' :: s) = string.preferred? ('"' :: s) := by
  rw [preferred?_string]
  cases h : quoted? ('"' :: s) with
  | none =>
      rw [preferred?_stringRest_eq_none (quoted?_eq_none_iff.mp h)]
      rfl
  | some p =>
      obtain ⟨m, r⟩ := p
      obtain ⟨hs, ⟨b, rfl, hb⟩ | ⟨⟨b, rfl, hb⟩, hr⟩⟩ := quoted?_eq_some_iff.mp h
      all_goals
        obtain rfl : s = b ++ '"' :: r := by simpa using hs
      · rw [preferred?_stringRest_of_passes hb]
        rfl
      · have hnone : beforeBareQuote? (b ++ '"' :: r) = none := by
          rw [List.append_cons]
          exact (beforeBareQuote?_append_eq_none hr).mpr hb
        rw [preferred?_stringRest_last hr hnone]
        rfl

end Pattern

/-- At a quote the scanner finds the match that the pattern for strings prefers. There is one
exactly if another quote comes. The first later quote behind an even number of backslashes
ends it, and where every later quote stands behind an odd number, the last quote of the text. -/
theorem string_preferred (s : List Char) :
    read? ('"' :: s) = Pattern.string.preferred? ('"' :: s) ∧
    ((Pattern.string.preferred? ('"' :: s)).isSome ↔ '"' ∈ s) ∧
    (∀ b r, s = b ++ '"' :: r → OnlyOddQuotes b → Even (trailingBackslashes b) →
      Pattern.string.preferred? ('"' :: s) = some ('"' :: b ++ ['"'], r)) ∧
    (∀ b r, s = b ++ '"' :: r → OnlyOddQuotes s → '"' ∉ r →
      Pattern.string.preferred? ('"' :: s) = some ('"' :: b ++ ['"'], r)) := by
  refine ⟨?_, ?_, ?_, ?_⟩
  · rw [read?_eq_quoted?, Pattern.quoted?_eq_preferred?]
  · rw [← Pattern.quoted?_eq_preferred?, Option.isSome_iff_ne_none, ne_eq, quoted?_eq_none_iff,
      not_not]
  · rintro b r rfl hodd heven
    rw [Pattern.preferred?_string,
      Pattern.preferred?_stringRest_of_passes (passes_iff_onlyOddQuotes.mpr ⟨hodd, heven⟩)]
    rfl
  · rintro b r rfl hodd hr
    rw [Pattern.preferred?_string, Pattern.preferred?_stringRest_last hr
      (beforeBareQuote?_eq_none_iff_onlyOddQuotes.mpr hodd)]
    rfl

/-- The quote behind `b` closes the string although one more comes. With a backslash before it
it still does if it is the last one. -/
theorem string_preferred_escaped :
    OnlyOddQuotes "a\\\"b".toList ∧ OnlyOddQuotes "a\\\"b\\\" c".toList ∧
    Pattern.string.preferred? ('"' :: "a\\\"b\" c\"".toList) =
      some ("\"a\\\"b\"".toList, " c\"".toList) ∧
    Pattern.string.preferred? ('"' :: "a\\\"b\\\" c".toList) =
      some ("\"a\\\"b\\\"".toList, " c".toList) := by
  have heven := (string_preferred "a\\\"b\" c\"".toList).2.2.1 "a\\\"b".toList " c\"".toList
    (by decide) (by decide) (by decide)
  have hodd := (string_preferred "a\\\"b\\\" c".toList).2.2.2 "a\\\"b\\".toList " c".toList
    (by decide) (by decide) (by decide)
  refine ⟨by decide, by decide, heven, hodd⟩

end JsonText
