-- SUMMARY: Integers and binary numbers are spelled as numbers.
import Mathlib.Data.List.Basic
import JsonText.Decimal.Spelling
import JsonText.Proofs.Lexeme.Number

/-!
# Spelled numbers

Whatever the size of a number and wherever its point comes to stand, its
spelling follows the number grammar: no zero stands before other digits, there
are digits on both sides of a point, and digits follow the sign of an exponent.
-/

namespace JsonText

open Lexeme (IsDigits IsInteger IsFraction IsExponent IsNumber)

/-! ## Signs and points -/

/-- A number without a sign. -/
inductive Lexeme.IsUnsigned : List Char → Prop where
  | mk {i f e : List Char} (hi : IsInteger i) (hf : IsFraction f) (he : IsExponent e) :
      IsUnsigned (i ++ f ++ e)

namespace Lexeme

theorem IsUnsigned.isNumber {ds : List Char} (h : IsUnsigned ds) (p : Prop) [Decidable p] :
    IsNumber (if p then '-' :: ds else ds) := by
  obtain ⟨hi, hf, he⟩ := h
  split
  · exact .mk (.inr rfl) hi hf he
  · exact .mk (.inl rfl) hi hf he

theorem IsInteger.isUnsigned {i : List Char} (hi : IsInteger i) : IsUnsigned i := by
  have h := IsUnsigned.mk hi .none .none
  rwa [List.append_nil, List.append_nil] at h

theorem IsInteger.point {i ds : List Char} (hi : IsInteger i) (hds : IsDigits ds) :
    IsUnsigned (i ++ '.' :: ds) := by
  have h := IsUnsigned.mk hi (.point hds) .none
  rwa [List.append_nil] at h

/-- Digits that do not begin with zero. -/
theorem IsDigits.isInteger {ds : List Char} (h : IsDigits ds) (h0 : ds.head? ≠ some '0') :
    IsInteger ds := by
  cases ds with
  | nil => exact absurd rfl h.1
  | cons c ds =>
      obtain ⟨hc, hds⟩ := List.forall_mem_cons.mp h.2
      exact .digits hc (fun heq => h0 (congrArg some heq)) hds

theorem isDigits_zero : IsDigits ['0'] := by
  refine ⟨List.cons_ne_nil '0' [], fun d hd => ?_⟩
  rw [List.mem_singleton.mp hd]
  rfl

theorem isDigit_of_mem_zeros {n : Nat} {d : Char} (hd : d ∈ List.replicate n '0') :
    d.isDigit = true := by
  rw [(List.mem_replicate.mp hd).2]
  rfl

end Lexeme

open Lexeme (IsUnsigned isDigits_zero isInteger_singleton isDigit_of_mem_zeros)

namespace Decimal

/-! ## Digits of naturals -/

theorem isDigits_toDigits (n : Nat) : IsDigits (Nat.toDigits 10 n) :=
  ⟨Nat.toDigits_ne_nil, fun _ => Nat.isDigit_of_mem_toDigits (by decide) (by decide)⟩

theorem head_toDigits {n : Nat} (hn : n ≠ 0) : (Nat.toDigits 10 n).head? ≠ some '0' := by
  induction n using Nat.strongRecOn with
  | ind n ih =>
      rcases Nat.lt_or_ge n 10 with hlt | hge
      · have hdigit : ∀ n < 10, n ≠ 0 → n.digitChar ≠ '0' := by decide
        rw [Nat.toDigits_of_lt_base hlt]
        exact fun h => hdigit n hlt hn (Option.some.inj h)
      · rw [Nat.toDigits_of_base_le (by decide) hge,
          List.head?_append_of_ne_nil _ Nat.toDigits_ne_nil]
        exact ih (n / 10) (by omega) (by omega)

theorem isInteger_toDigits (n : Nat) : IsInteger (Nat.toDigits 10 n) := by
  by_cases hn : n = 0
  · rw [hn, Nat.toDigits_zero]
    exact .zero
  · exact (isDigits_toDigits n).isInteger (head_toDigits hn)

/-- Every integer is spelled as a number. -/
theorem isNumber_toString (n : Int) : IsNumber (toString n).toList := by
  have hspelled : (toString n).toList =
      if n < 0 then '-' :: Nat.toDigits 10 n.natAbs else Nat.toDigits 10 n.natAbs := by
    cases n <;> simp [Int.toString_eq_repr, Int.repr]
  rw [hspelled]
  exact (isInteger_toDigits n.natAbs).isUnsigned.isNumber (n < 0)

/-! ## Digits with a point or an exponent -/

theorem isExponent_letter (e : Int) :
    IsExponent ('e' :: (if e < 0 then '-' else '+') :: Nat.toDigits 10 e.natAbs) := by
  split
  · exact .letter (.inl rfl) (.inr (.inr rfl)) (isDigits_toDigits e.natAbs)
  · exact .letter (.inl rfl) (.inr (.inl rfl)) (isDigits_toDigits e.natAbs)

theorem isUnsigned_scientific (e : Int) : ∀ {ds : List Char}, IsDigits ds →
    IsUnsigned (scientific ds e)
  | [], h => absurd rfl h.1
  | [c], h => .mk (isInteger_singleton (h.2 c (List.mem_singleton_self c))) .none
      (isExponent_letter e)
  | c :: f :: fs, h => by
      obtain ⟨hc, hfs⟩ := List.forall_mem_cons.mp h.2
      have hfraction : IsDigits (f :: fs) := ⟨List.cons_ne_nil f fs, hfs⟩
      exact .mk (isInteger_singleton hc) (.point hfraction) (isExponent_letter e)

theorem isUnsigned_pointBefore {ds : List Char} (h : IsDigits ds) (n : Nat) :
    IsUnsigned (pointBefore ds n) := by
  have hfraction : IsDigits (List.replicate n '0' ++ ds) :=
    ⟨by simp [h.1], List.forall_mem_append.mpr ⟨fun _ => isDigit_of_mem_zeros, h.2⟩⟩
  exact IsInteger.zero.point hfraction

theorem isUnsigned_pointBehind {ds : List Char} {n : Nat} (h : IsDigits ds)
    (h0 : ds.head? ≠ some '0') (hn : n ≠ 0) : IsUnsigned (pointBehind ds n) := by
  have htake : ds.take n ≠ [] := by simp [h.1, hn]
  have hwhole : IsDigits (ds.take n ++ List.replicate (n - ds.length) '0') := by
    refine ⟨by simp [htake], List.forall_mem_append.mpr ⟨fun d hd => ?_, fun _ => ?_⟩⟩
    · exact h.2 d (List.mem_of_mem_take hd)
    · exact isDigit_of_mem_zeros
  have hhead : (ds.take n ++ List.replicate (n - ds.length) '0').head? ≠ some '0' := by
    rwa [List.head?_append_of_ne_nil _ htake, List.head?_take, if_neg hn]
  rw [pointBehind]
  cases hdrop : ds.drop n with
  | nil => exact (hwhole.isInteger hhead).point isDigits_zero
  | cons f fs =>
      have hfraction : IsDigits (f :: fs) :=
        ⟨List.cons_ne_nil f fs, fun d hd => h.2 d (List.mem_of_mem_drop (hdrop ▸ hd))⟩
      exact (hwhole.isInteger hhead).point hfraction

/-- A decimal is spelled as a number, provided that zero comes with no power of ten. -/
theorem isUnsigned_spell (range : PlainRange) {d : Decimal}
    (h0 : d.digits = 0 → d.exponent = 0) : IsUnsigned (d.spell range) := by
  have hds := isDigits_toDigits d.digits
  simp only [spell]
  split
  · exact isUnsigned_scientific _ hds
  · split
    · exact isUnsigned_pointBefore hds _
    · next hneg =>
      by_cases hd : d.digits = 0
      · rw [hd, h0 hd]
        exact IsInteger.zero.point isDigits_zero
      · exact isUnsigned_pointBehind hds (head_toDigits hd) (by omega)

theorem exponent_strip_go (n : Nat) (e : Int) :
    (strip.go n e).digits = 0 → (strip.go n e).exponent = 0 := by
  fun_induction strip.go n e with
  | case1 => exact fun _ => rfl
  | case2 _ _ _ _ ih => exact ih
  | case3 n e hn => exact fun h => absurd h hn

/-- Zero is left without a power of ten. -/
theorem exponent_strip (d : Decimal) : d.strip.digits = 0 → d.strip.exponent = 0 :=
  exponent_strip_go d.digits d.exponent

end Decimal

/-- Every finite number of either format is spelled as a number. -/
theorem Binary.isNumber_of_spell? {x : Binary} {s : String} (h : x.spell? = some s) :
    IsNumber s.toList := by
  unfold spell? at h
  split at h
  · obtain rfl := Option.some.inj h
    rw [String.toList_ofList]
    refine IsUnsigned.isNumber ?_ (x.isNegative = true)
    split
    · exact IsInteger.zero.point isDigits_zero
    · exact Decimal.isUnsigned_spell _ (Decimal.exponent_strip _)
  · simp at h

end JsonText
