-- SUMMARY: The recogniser for numbers cuts off the longest number at the head of a text.
import JsonText.Proofs.Lexeme.Number

/-!
# The longest number

Each part of a number is read as far as its own grammar allows. Where a part
could have been shorter, the character behind the shorter one belongs to the part
itself, and no later part of a number begins with such a character. So what is
cut off as a whole is the longest number too.
-/

namespace JsonText.Lexeme

/-! ## Characters of numbers -/

/-- The characters of which numbers consist. -/
def IsNumeral (c : Char) : Prop :=
  c.isDigit = true ∨ c ∈ ['-', '+', '.', 'e', 'E']

variable {c : Char}

theorem IsInteger.isDigit_of_mem {i : List Char} (h : IsInteger i) (hc : c ∈ i) :
    c.isDigit = true := by
  cases h with
  | zero =>
      obtain rfl := List.mem_singleton.mp hc
      decide
  | digits hd _ hds =>
      rcases List.mem_cons.mp hc with rfl | hc
      · exact hd
      · exact hds c hc

theorem IsFraction.eq_or_isDigit_of_mem {f : List Char} (h : IsFraction f) (hc : c ∈ f) :
    c = '.' ∨ c.isDigit = true := by
  cases h with
  | none => simp at hc
  | point hds => exact (List.mem_cons.mp hc).imp_right (hds.2 c)

theorem IsExponent.isNumeral_of_mem {e : List Char} (h : IsExponent e) (hc : c ∈ e) :
    IsNumeral c := by
  cases h with
  | none => simp at hc
  | letter hl hsgn hds =>
      rcases List.mem_cons.mp hc with rfl | hc
      · rcases hl with rfl | rfl <;> exact .inr (by decide)
      · rcases List.mem_append.mp hc with hc | hc
        · rcases hsgn with rfl | rfl | rfl
          · simp at hc
          · obtain rfl := List.mem_singleton.mp hc
            exact .inr (by decide)
          · obtain rfl := List.mem_singleton.mp hc
            exact .inr (by decide)
        · exact .inl (hds.2 c hc)

theorem IsNumber.isNumeral_of_mem {m : List Char} (h : IsNumber m) (hc : c ∈ m) :
    IsNumeral c := by
  obtain ⟨hsgn, hi, hf, he⟩ := h
  simp only [List.mem_append] at hc
  rcases hc with ((hc | hc) | hc) | hc
  · rcases hsgn with rfl | rfl
    · simp at hc
    · obtain rfl := List.mem_singleton.mp hc
      exact .inr (by decide)
  · exact .inl (hi.isDigit_of_mem hc)
  · rcases hf.eq_or_isDigit_of_mem hc with rfl | hd
    · exact .inr (by decide)
    · exact .inl hd
  · exact he.isNumeral_of_mem hc

theorem IsFraction.head_eq {f : List Char} (h : IsFraction f) (hc : c ∈ f.head?) : c = '.' := by
  cases h with
  | none => simp at hc
  | point _ => exact (Option.some.inj hc).symm

theorem IsExponent.head_eq {e : List Char} (h : IsExponent e) (hc : c ∈ e.head?) :
    c = 'e' ∨ c = 'E' := by
  cases h with
  | none => simp at hc
  | letter hl _ _ =>
      obtain rfl := Option.some.inj hc
      exact hl

/-! ## Each part is read as far as it goes -/

theorem prefix_digits {ds s : List Char} (hds : ∀ d ∈ ds, d.isDigit = true) (h : ds <+: s) :
    ds <+: (digits s).1 := by
  obtain ⟨t, rfl⟩ := h
  rw [digits, List.takeWhile_append_of_pos hds]
  exact List.prefix_append _ _

theorem IsInteger.exists_prefix {i s : List Char} (hi : IsInteger i) (h : i <+: s) :
    ∃ i' r, integer? s = some (i', r) ∧ i <+: i' := by
  obtain ⟨t, rfl⟩ := h
  cases hi with
  | zero => exact ⟨['0'], t, rfl, List.prefix_rfl⟩
  | @digits c ds hc h0 hds =>
      have hlong := prefix_digits hds (List.prefix_append ds t)
      have hint : integer? (c :: ds ++ t) =
          some (c :: (Lexeme.digits (ds ++ t)).1, (Lexeme.digits (ds ++ t)).2) := by
        rw [List.cons_append, integer?, if_neg (by simpa using h0), if_pos hc]
      exact ⟨_, _, hint, (List.prefix_cons_inj c).mpr hlong⟩

theorem IsFraction.prefix_fraction {f s : List Char} (hf : IsFraction f) (h : f <+: s) :
    f <+: (fraction s).1 := by
  obtain ⟨t, rfl⟩ := h
  cases hf with
  | none => exact List.nil_prefix
  | @point ds hds =>
      have hlong := prefix_digits hds.2 (List.prefix_append ds t)
      have hne : (digits (ds ++ t)).1 ≠ [] := fun hnil =>
        hds.1 (List.prefix_nil.mp (hnil ▸ hlong))
      rw [List.cons_append, fraction_point, if_neg hne]
      exact (List.prefix_cons_inj _).mpr hlong

theorem IsExponent.prefix_exponent {e s : List Char} (he : IsExponent e) (h : e <+: s) :
    e <+: (exponent s).1 := by
  obtain ⟨t, rfl⟩ := h
  cases he with
  | none => exact List.nil_prefix
  | @letter c sgn ds hc hsgn hds =>
      have hsign := exponentSign_append_of_isDigits (r := t) hsgn hds
      have hlong := prefix_digits hds.2 (List.prefix_append ds t)
      have hne : (digits (ds ++ t)).1 ≠ [] := fun hnil =>
        hds.1 (List.prefix_nil.mp (hnil ▸ hlong))
      rw [List.cons_append, List.append_assoc, exponent_letter hc, hsign, if_neg hne]
      exact (List.prefix_cons_inj c).mpr ((List.prefix_append_right_inj sgn).mpr hlong)

/-! ## The whole is read as far as it goes -/

/-- Two parts in order are as long as can be if each of them is, and if no character of the
first begins the second. -/
theorem prefix_append_of_longest {a a' b b' r t : List Char} (hcut : a' ++ r = a ++ (b ++ t))
    (ha : a <+: a') (hb : r = b ++ t → b <+: b') (hne : ∀ c ∈ b.head?, c ∉ a') :
    a ++ b <+: a' ++ b' := by
  obtain ⟨x, rfl⟩ := ha
  rw [List.append_assoc] at hcut
  have hx := List.append_cancel_left hcut
  rw [List.append_assoc]
  apply (List.prefix_append_right_inj a).mpr
  cases x with
  | nil => exact hb hx
  | cons c x =>
      -- The first part goes on with `c`, where the second would have to begin.
      cases b with
      | nil => exact List.nil_prefix
      | cons d b =>
          obtain rfl : c = d := (List.cons.inj hx).1
          exact absurd (by simp) (hne c rfl)

/-- A fraction and the exponent behind it are read as far as they go. -/
theorem prefix_fraction_exponent {f e s : List Char} (hf : IsFraction f) (he : IsExponent e)
    (h : f ++ e <+: s) : f ++ e <+: (fraction s).1 ++ (exponent (fraction s).2).1 := by
  obtain ⟨t, ht⟩ := h
  have hcut : (fraction s).1 ++ (fraction s).2 = f ++ (e ++ t) := by
    rw [fraction_append, ← ht, List.append_assoc]
  have hfrac : f <+: (fraction s).1 := hf.prefix_fraction ⟨e ++ t, by rw [← ht, List.append_assoc]⟩
  refine prefix_append_of_longest hcut hfrac ?_ ?_
  · intro hrest
    exact he.prefix_exponent ⟨t, hrest.symm⟩
  · intro c hc hmem
    rcases (isFraction_fraction s).1.eq_or_isDigit_of_mem hmem with rfl | hd
    · rcases he.head_eq hc with h | h <;> exact absurd h (by decide)
    · rcases he.head_eq hc with rfl | rfl <;> exact absurd hd (by decide)

/-- Wherever a number stands, a number is cut off that is at least as long. -/
theorem IsNumber.exists_prefix {n s : List Char} (hn : IsNumber n) (h : n <+: s) :
    ∃ m r, number? s = some (m, r) ∧ n <+: m := by
  obtain ⟨t, rfl⟩ := h
  obtain @⟨sgn, i, f, e, hsgn, hi, hf, he⟩ := hn
  have hsign := sign_append_of_isInteger (r := f ++ e ++ t) hsgn hi
  obtain ⟨i', r, hint, hlong⟩ := hi.exists_prefix (List.prefix_append i (f ++ e ++ t))
  have hcut : i' ++ r = i ++ (f ++ e ++ t) := (cuts_of_integer? hint).1
  have hnum : number? (sgn ++ i ++ f ++ e ++ t) =
      some (sgn ++ i' ++ (fraction r).1 ++ (exponent (fraction r).2).1,
        (exponent (fraction r).2).2) := by
    unfold number?
    simp only [List.append_assoc] at hsign hint ⊢
    simp only [hsign, hint, Option.bind_eq_bind, Option.bind_some]
  have hwhole : i ++ (f ++ e) <+: i' ++ ((fraction r).1 ++ (exponent (fraction r).2).1) := by
    refine prefix_append_of_longest hcut hlong ?_ ?_
    · intro hrest
      exact prefix_fraction_exponent hf he ⟨t, hrest.symm⟩
    · intro c hc hmem
      have hd := (isInteger_of_integer? hint).1.isDigit_of_mem hmem
      rw [List.head?_append, Option.mem_def, Option.or_eq_some_iff] at hc
      rcases hc with hc | ⟨-, hc⟩
      · obtain rfl := hf.head_eq hc
        exact absurd hd (by decide)
      · rcases he.head_eq hc with rfl | rfl <;> exact absurd hd (by decide)
  refine ⟨_, _, hnum, ?_⟩
  simpa only [List.append_assoc, List.prefix_append_right_inj] using hwhole

/-- What is cut off is the longest number that the text begins with. -/
theorem number?_eq_some_iff {s m r : List Char} :
    number? s = some (m, r) ↔
      s = m ++ r ∧ IsNumber m ∧ ∀ n, IsNumber n → n <+: s → n <+: m := by
  constructor
  · intro h
    refine ⟨(cuts_of_number? h).1.symm, (isNumber_of_number? h).1, fun n hn hp => ?_⟩
    obtain ⟨m', r', h', hlong⟩ := hn.exists_prefix hp
    rw [h] at h'
    obtain ⟨rfl, -⟩ := Prod.mk.inj (Option.some.inj h')
    exact hlong
  · rintro ⟨rfl, hm, hlongest⟩
    obtain ⟨m', r', h', hlong⟩ := hm.exists_prefix (List.prefix_append m r)
    have hcut := (cuts_of_number? h').1
    have hback := hlongest m' (isNumber_of_number? h').1 ⟨r', hcut⟩
    obtain rfl := hback.eq_of_length_le hlong.length_le
    rw [h', List.append_cancel_left hcut]

end JsonText.Lexeme
