-- SUMMARY: Which quote closes a string, and when the same quote closes it in another text.
import Mathlib.Data.List.TakeWhile
import JsonText.Lexeme.Quoted

/-!
# Strings and the quotes that close them

A string is closed by a bare quote or, where no bare quote comes, by the last
quote of the text. A string of the first kind is read back from any text it
stands in front of. A string of the second kind is read back only where no quote
comes behind it, since a later one would close it instead.
-/

namespace JsonText.Lexeme

/-! ## Bare quotes -/

/-- A walk over the text, in which a backslash takes the next character along, meets no
quote and takes nothing along from behind the text. -/
inductive Passes : List Char → Prop where
  | nil : Passes []
  | escape {b : List Char} (c : Char) (hb : Passes b) : Passes ('\\' :: c :: b)
  | plain {b : List Char} {c : Char} (hq : c ≠ '"') (hs : c ≠ '\\') (hb : Passes b) :
      Passes (c :: b)

private theorem beforeBareQuote?_go_plain {c : Char} (hq : c ≠ '"') (hs : c ≠ '\\')
    (passed r : List Char) :
    beforeBareQuote?.go passed (c :: r) = beforeBareQuote?.go (c :: passed) r := by
  rw [beforeBareQuote?.go]
  · exact hq
  · exact fun _ _ h => absurd h hs

private theorem beforeBareQuote?_go_append {b : List Char} (hb : Passes b)
    (passed r : List Char) :
    beforeBareQuote?.go passed (b ++ '"' :: r) = some (passed.reverse ++ b, r) := by
  induction hb generalizing passed with
  | nil => simp [beforeBareQuote?.go]
  | escape c _ ih =>
      simp only [List.cons_append, beforeBareQuote?.go]
      rw [ih]
      simp
  | plain hq hs _ ih =>
      rw [List.cons_append, beforeBareQuote?_go_plain hq hs, ih]
      simp

/-- The walk stops at the first quote it meets. -/
theorem beforeBareQuote?_append {b : List Char} (hb : Passes b) (r : List Char) :
    beforeBareQuote? (b ++ '"' :: r) = some (b, r) :=
  beforeBareQuote?_go_append hb [] r

private theorem passes_of_beforeBareQuote?_go {passed s b r : List Char}
    (h : beforeBareQuote?.go passed s = some (b, r)) :
    ∃ t, b = passed.reverse ++ t ∧ Passes t := by
  fun_induction beforeBareQuote?.go passed s with
  | case1 => simp at h
  | case2 passed r =>
      simp only [Option.some.injEq, Prod.mk.injEq] at h
      exact ⟨[], by simp [h.1], .nil⟩
  | case3 passed c r ih =>
      obtain ⟨t, ht, hp⟩ := ih h
      exact ⟨'\\' :: c :: t, by simpa using ht, .escape c hp⟩
  | case4 passed c r hq hs ih =>
      -- A backslash comes here only as the last character, and then no quote is met.
      have hc : c ≠ '\\' := by
        rintro rfl
        cases r with
        | nil => simp [beforeBareQuote?.go] at h
        | cons d r => exact hs d r rfl rfl
      obtain ⟨t, ht, hp⟩ := ih h
      exact ⟨c :: t, by simpa using ht, .plain hq hc hp⟩

theorem passes_of_beforeBareQuote? {s b r : List Char} (h : beforeBareQuote? s = some (b, r)) :
    Passes b := by
  obtain ⟨t, rfl, hp⟩ := passes_of_beforeBareQuote?_go h
  exact hp

/-- The walk over `s` meets a bare quote exactly if `s` is so divided by one. -/
theorem beforeBareQuote?_eq_some_iff {s b r : List Char} :
    beforeBareQuote? s = some (b, r) ↔ s = b ++ '"' :: r ∧ Passes b := by
  constructor
  · intro h
    exact ⟨(append_of_beforeBareQuote? h).symm, passes_of_beforeBareQuote? h⟩
  · rintro ⟨rfl, hb⟩
    exact beforeBareQuote?_append hb r

/-- Text without quotes behind `p` brings in no bare quote. -/
theorem beforeBareQuote?_append_eq_none {p r : List Char} (hr : '"' ∉ r) :
    beforeBareQuote? (p ++ r) = none ↔ beforeBareQuote? p = none := by
  simp only [Option.eq_none_iff_forall_ne_some, Prod.forall, ne_eq,
    beforeBareQuote?_eq_some_iff, not_and]
  constructor
  · intro h b t hp
    exact h b (t ++ r) (by simp [hp])
  · intro h b t hp
    rcases List.append_eq_append_iff.mp hp with ⟨t', rfl, rfl⟩ | ⟨t', rfl, ht⟩
    · exact absurd hr (by simp)
    · cases t' with
      | nil =>
          obtain rfl : '"' :: t = r := ht
          exact absurd hr (by simp)
      | cons c t' =>
          obtain ⟨rfl, -⟩ := List.cons.inj ht
          exact h b t' rfl

/-! ## The last quote -/

theorem beforeLastQuote?_append {r : List Char} (hr : '"' ∉ r) (b : List Char) :
    beforeLastQuote? (b ++ '"' :: r) = some (b, r) := by
  have hne : ∀ c ∈ r.reverse, (c != '"') = true := by
    intro c hc
    have : c ≠ '"' := fun h => hr (h ▸ List.mem_reverse.mp hc)
    simpa using this
  have hs : (b ++ '"' :: r).reverse = r.reverse ++ '"' :: b.reverse := by simp
  unfold beforeLastQuote?
  rw [hs, List.takeWhile_append_of_pos hne, List.dropWhile_append_of_pos hne]
  simp

theorem quote_notMem_of_beforeLastQuote? {s b r : List Char}
    (h : beforeLastQuote? s = some (b, r)) : '"' ∉ r := by
  unfold beforeLastQuote? at h
  split at h
  · simp at h
  · simp only [Option.some.injEq, Prod.mk.injEq] at h
    obtain ⟨-, rfl⟩ := h
    intro hq
    have := List.all_eq_true.mp List.all_takeWhile _ (List.mem_reverse.mp hq)
    simp at this

theorem quote_notMem_of_beforeLastQuote?_eq_none {s : List Char}
    (h : beforeLastQuote? s = none) : '"' ∉ s := by
  unfold beforeLastQuote? at h
  split at h
  · next hd =>
    intro hq
    have := List.dropWhile_eq_nil_iff.mp hd '"' (List.mem_reverse.mpr hq)
    simp at this
  · simp at h

/-! ## Strings -/

/-- The string is closed by a bare quote. -/
def IsClosed (m : List Char) : Prop :=
  ∃ b, m = '"' :: b ++ ['"'] ∧ Passes b

/-- The string holds no bare quote, not even at its end, where it is closed only for want of
a better quote. -/
def IsForced (m : List Char) : Prop :=
  ∃ b, m = '"' :: b ++ ['"'] ∧ beforeBareQuote? (b ++ ['"']) = none

theorem not_isForced_of_isClosed {m : List Char} (h : IsClosed m) : ¬ IsForced m := by
  rintro ⟨b', hm', hb'⟩
  obtain ⟨b, rfl, hb⟩ := h
  obtain rfl : b = b' := by simpa using hm'
  rw [beforeBareQuote?_append hb []] at hb'
  simp at hb'

/-- A string is read exactly if a bare quote closes it, or if it has no bare quote and no
quote comes behind it. -/
theorem quoted?_eq_some_iff {s m r : List Char} :
    quoted? s = some (m, r) ↔ s = m ++ r ∧ (IsClosed m ∨ IsForced m ∧ '"' ∉ r) := by
  constructor
  · intro h
    refine ⟨(cuts_of_quoted? h).1.symm, ?_⟩
    unfold quoted? at h
    split at h
    · next s =>
      simp only [Option.orElse_eq_orElse, Option.orElse_eq_or, Option.map_eq_some_iff,
        Option.or_eq_some_iff, Prod.mk.injEq, Prod.exists] at h
      obtain ⟨b, r', hb, rfl, rfl⟩ := h
      rcases hb with hb | ⟨hnone, hb⟩
      · exact .inl ⟨b, rfl, passes_of_beforeBareQuote? hb⟩
      · have hr := quote_notMem_of_beforeLastQuote? hb
        rw [← append_of_beforeLastQuote? hb, List.append_cons,
          beforeBareQuote?_append_eq_none hr] at hnone
        exact .inr ⟨⟨b, rfl, hnone⟩, hr⟩
    · simp at h
  · rintro ⟨rfl, ⟨b, rfl, hb⟩ | ⟨⟨b, rfl, hb⟩, hr⟩⟩
    · have h := beforeBareQuote?_append hb r
      simp [quoted?, h]
    · have hnone : beforeBareQuote? (b ++ '"' :: r) = none := by
        rw [List.append_cons]
        exact (beforeBareQuote?_append_eq_none hr).mpr hb
      simp [quoted?, hnone, beforeLastQuote?_append hr]

theorem quoted?_of_ne_quote {c : Char} (hc : c ≠ '"') (s : List Char) :
    quoted? (c :: s) = none := by
  unfold quoted?
  split
  · next h => exact absurd (List.cons.inj h).1 hc
  · rfl

/-- A quote opens no string exactly if no other quote comes behind it. -/
theorem quoted?_eq_none_iff {s : List Char} : quoted? ('"' :: s) = none ↔ '"' ∉ s := by
  constructor
  · intro h
    simp only [quoted?, Option.orElse_eq_orElse, Option.orElse_eq_or, Option.map_eq_none_iff,
      Option.or_eq_none_iff] at h
    exact quote_notMem_of_beforeLastQuote?_eq_none h.2
  · intro hs
    cases h : quoted? ('"' :: s) with
    | none => rfl
    | some p =>
        obtain ⟨happ, ⟨b, hb, -⟩ | ⟨⟨b, hb, -⟩, -⟩⟩ := quoted?_eq_some_iff.mp h
        · exact absurd (by simp_all) hs
        · exact absurd (by simp_all) hs

end JsonText.Lexeme
