-- SUMMARY: The units of which the inside of a string consists, and backslashes before a quote.
import Mathlib.Algebra.Group.Nat.Even
import Mathlib.Data.List.Induction
import JsonText.Proofs.Lexeme.Quoted

/-!
# Escaped quotes

The units of strings overlap: a backslash is a unit of its own and also the
first half of two others. So the inside of a string says little about where the
string ends. Which quotes are bare is decided by how many backslashes stand
directly before them.
-/

namespace JsonText.Lexeme

/-! ## Units -/

/-- Two backslashes, a backslash and a quote, or any one character but a quote, over and over. -/
inductive Units : List Char → Prop where
  | nil : Units []
  | backslashes {b : List Char} (hb : Units b) : Units ('\\' :: '\\' :: b)
  | quote {b : List Char} (hb : Units b) : Units ('\\' :: '"' :: b)
  | other {b : List Char} {c : Char} (hc : c ≠ '"') (hb : Units b) : Units (c :: b)

theorem Units.escape {b : List Char} (c : Char) (hb : Units b) : Units ('\\' :: c :: b) := by
  by_cases hc : c = '"'
  · rw [hc]
    exact .quote hb
  · exact .other (by decide) (.other hc hb)

theorem Passes.units {b : List Char} (h : Passes b) : Units b := by
  induction h with
  | nil => exact .nil
  | escape c _ ih => exact ih.escape c
  | plain hq _ _ ih => exact .other hq ih

theorem beforeBareQuote?_eq_none_iff {s : List Char} :
    beforeBareQuote? s = none ↔ ∀ b r, s = b ++ '"' :: r → ¬ Passes b := by
  simp only [Option.eq_none_iff_forall_ne_some, Prod.forall, ne_eq,
    beforeBareQuote?_eq_some_iff, not_and]

theorem beforeBareQuote?_eq_none_of_append {p r : List Char}
    (h : beforeBareQuote? (p ++ r) = none) : beforeBareQuote? p = none := by
  rw [beforeBareQuote?_eq_none_iff] at h ⊢
  rintro b c rfl
  exact h b (c ++ r) (by simp)

theorem ne_quote_of_beforeBareQuote?_eq_none {c : Char} {s : List Char}
    (h : beforeBareQuote? (c :: s) = none) : c ≠ '"' := by
  rintro rfl
  exact beforeBareQuote?_eq_none_iff.mp h [] s rfl .nil

theorem beforeBareQuote?_eq_none_of_escape {c : Char} {s : List Char}
    (h : beforeBareQuote? ('\\' :: c :: s) = none) : beforeBareQuote? s = none := by
  rw [beforeBareQuote?_eq_none_iff] at h ⊢
  rintro b r rfl hb
  exact h ('\\' :: c :: b) r rfl (.escape c hb)

theorem beforeBareQuote?_eq_none_of_plain {c : Char} {s : List Char} (hs : c ≠ '\\')
    (h : beforeBareQuote? (c :: s) = none) : beforeBareQuote? s = none := by
  have hq := ne_quote_of_beforeBareQuote?_eq_none h
  rw [beforeBareQuote?_eq_none_iff] at h ⊢
  rintro b r rfl hb
  exact h (c :: b) r rfl (.plain hq hs hb)

/-- Where no quote is bare, every quote is a unit together with the backslash before it. -/
theorem units_of_beforeBareQuote?_eq_none {s : List Char} :
    ∀ {b : List Char}, beforeBareQuote? (b ++ s) = none → Units b
  | [], _ => .nil
  | [_], h => .other (ne_quote_of_beforeBareQuote?_eq_none h) .nil
  | c :: d :: b, h => by
      by_cases hs : c = '\\'
      · subst hs
        have hb : Units b :=
          units_of_beforeBareQuote?_eq_none (beforeBareQuote?_eq_none_of_escape h)
        exact hb.escape d
      · have hb : Units (d :: b) :=
          units_of_beforeBareQuote?_eq_none (beforeBareQuote?_eq_none_of_plain hs h)
        exact .other (ne_quote_of_beforeBareQuote?_eq_none h) hb

/-! ## Backslashes before a quote -/

/-- How many backslashes the text ends with. -/
def trailingBackslashes (s : List Char) : Nat :=
  (s.reverse.takeWhile (· == '\\')).length

theorem trailingBackslashes_concat_backslash (s : List Char) :
    trailingBackslashes (s ++ ['\\']) = trailingBackslashes s + 1 := by
  simp [trailingBackslashes]

theorem trailingBackslashes_concat_of_ne {c : Char} (hc : c ≠ '\\') (s : List Char) :
    trailingBackslashes (s ++ [c]) = 0 := by
  simp [trailingBackslashes, hc]

/-- An opening quote ends the count. -/
theorem trailingBackslashes_cons_quote (s : List Char) :
    trailingBackslashes ('"' :: s) = trailingBackslashes s := by
  induction s using List.reverseRecOn with
  | nil => rfl
  | append_singleton s c ih =>
      rw [← List.cons_append]
      by_cases hc : c = '\\'
      · rw [hc, trailingBackslashes_concat_backslash, trailingBackslashes_concat_backslash, ih]
      · rw [trailingBackslashes_concat_of_ne hc, trailingBackslashes_concat_of_ne hc]

theorem Passes.append {a b : List Char} (ha : Passes a) (hb : Passes b) : Passes (a ++ b) := by
  induction ha with
  | nil => exact hb
  | escape c _ ih => exact .escape c ih
  | plain hq hs _ ih => exact .plain hq hs ih

theorem Passes.of_escape {c : Char} {b : List Char} (h : Passes ('\\' :: c :: b)) : Passes b := by
  cases h with
  | escape _ hb => exact hb
  | plain _ hs _ => exact absurd rfl hs

theorem Passes.of_plain {c : Char} {b : List Char} (hs : c ≠ '\\') (h : Passes (c :: b)) :
    Passes b := by
  cases h with
  | escape => exact absurd rfl hs
  | plain _ _ hb => exact hb

/-- The walk cannot end in the middle of an escape. -/
theorem Passes.not_concat_backslash {b : List Char} (h : Passes b) : ¬ Passes (b ++ ['\\']) := by
  induction h with
  | nil =>
      intro h
      cases h with
      | plain _ hs _ => exact hs rfl
  | escape c _ ih => exact fun h => ih h.of_escape
  | plain _ hs _ ih => exact fun h => ih (h.of_plain hs)

/-- Before a quote that is reached without passing a bare one, the walk has nothing left over
if the number of backslashes is even, and one backslash if it is odd. -/
theorem passes_or_concat_backslash {b : List Char} (h : beforeBareQuote? b = none) :
    (Passes b ∧ Even (trailingBackslashes b)) ∨
      ∃ b', b = b' ++ ['\\'] ∧ Passes b' ∧ ¬ Even (trailingBackslashes b) := by
  induction b using List.reverseRecOn with
  | nil => exact .inl ⟨.nil, by decide⟩
  | append_singleton b c ih =>
      rcases ih (beforeBareQuote?_eq_none_of_append h) with ⟨hp, heven⟩ | ⟨b', rfl, hp, hodd⟩
      · by_cases hc : c = '\\'
        · subst hc
          refine .inr ⟨b, rfl, hp, ?_⟩
          rw [trailingBackslashes_concat_backslash, Nat.even_add_one, not_not]
          exact heven
        · have hq : c ≠ '"' := by
            rintro rfl
            exact beforeBareQuote?_eq_none_iff.mp h b [] rfl hp
          refine .inl ⟨hp.append (.plain hq hc .nil), ?_⟩
          rw [trailingBackslashes_concat_of_ne hc]
          decide
      · refine .inl ⟨?_, ?_⟩
        · rw [List.append_assoc]
          exact hp.append (.escape c .nil)
        · by_cases hc : c = '\\'
          · subst hc
            rw [trailingBackslashes_concat_backslash, Nat.even_add_one]
            exact hodd
          · rw [trailingBackslashes_concat_of_ne hc]
            decide

/-- The first quotes of a text being taken along, the next one is bare exactly if an even
number of backslashes stands before it. -/
theorem passes_iff_even {b : List Char} (h : beforeBareQuote? b = none) :
    Passes b ↔ Even (trailingBackslashes b) := by
  rcases passes_or_concat_backslash h with ⟨hp, heven⟩ | ⟨b', rfl, hp, hodd⟩
  · exact ⟨fun _ => heven, fun _ => hp⟩
  · exact ⟨fun hp' => absurd hp' hp.not_concat_backslash, fun heven => absurd heven hodd⟩

/-- Every quote in the text stands behind an odd number of backslashes. -/
def OnlyOddQuotes (s : List Char) : Prop :=
  ∀ b r, s = b ++ '"' :: r → ¬ Even (trailingBackslashes b)

theorem Passes.beforeBareQuote?_eq_none {b : List Char} (h : Passes b) :
    beforeBareQuote? b = none := by
  rw [beforeBareQuote?_eq_none_iff]
  rintro a r rfl ha
  have hfirst := beforeBareQuote?_append h []
  rw [List.append_assoc, List.cons_append, beforeBareQuote?_append ha] at hfirst
  simp at hfirst

theorem beforeBareQuote?_eq_none_iff_onlyOddQuotes {s : List Char} :
    beforeBareQuote? s = none ↔ OnlyOddQuotes s := by
  constructor
  · rintro h b r rfl heven
    have hb : Passes b := (passes_iff_even (beforeBareQuote?_eq_none_of_append h)).mpr heven
    exact beforeBareQuote?_eq_none_iff.mp h b r rfl hb
  · intro h
    rw [beforeBareQuote?_eq_none_iff]
    intro b r hs hb
    exact h b r hs ((passes_iff_even hb.beforeBareQuote?_eq_none).mp hb)

instance (s : List Char) : Decidable (OnlyOddQuotes s) :=
  decidable_of_iff (beforeBareQuote? s = none) beforeBareQuote?_eq_none_iff_onlyOddQuotes

/-- A bare quote is the first one behind an even number of backslashes. -/
theorem passes_iff_onlyOddQuotes {b : List Char} :
    Passes b ↔ OnlyOddQuotes b ∧ Even (trailingBackslashes b) := by
  rw [← beforeBareQuote?_eq_none_iff_onlyOddQuotes]
  constructor
  · exact fun h => ⟨h.beforeBareQuote?_eq_none, (passes_iff_even h.beforeBareQuote?_eq_none).mp h⟩
  · exact fun h => (passes_iff_even h.1).mpr h.2

/-- A string whose last quote stands behind an even number of backslashes is closed by a bare
quote. -/
theorem isClosed_of_even {m : List Char} (h : IsClosed m ∨ IsForced m)
    (heven : Even (trailingBackslashes m.dropLast)) : IsClosed m := by
  rcases h with h | ⟨b, rfl, hb⟩
  · exact h
  · rw [List.dropLast_concat, trailingBackslashes_cons_quote] at heven
    have hnone : beforeBareQuote? b = none := beforeBareQuote?_eq_none_of_append hb
    exact ⟨b, rfl, (passes_iff_even hnone).mpr heven⟩

end JsonText.Lexeme
