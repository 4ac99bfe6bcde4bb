-- SUMMARY: Texts that numbers without blanks between them make up, and what a number leaves of one.
import Mathlib.Data.List.Basic
import JsonText.Proofs.Lexeme.Longest

/-!
# Runs of numbers

Numbers written one behind the other need not be cut up as they were written,
since the first may take in digits of the next. What is then left of the next
number is no number. Still it is made like a run of numbers: each minus, point
and exponent letter in it goes with a digit behind it. A number ends with a
digit, so a run that loses a number at its head remains a run.
-/

namespace JsonText.Lexeme

/-- What may be left over of a number behind its integer part, up to the next digit or minus. -/
def leftovers : List (List Char) :=
  [['.'], ['e'], ['E'], ['e', '+'], ['E', '+']]

/-- A text that is read from one digit to the next, with a minus or a leftover before a digit or
nothing at all. -/
inductive Run : List Char → Prop where
  | nil : Run []
  | digit {u v s : List Char} {d : Char} (hu : u = [] ∨ u ∈ leftovers)
      (hv : v = [] ∨ v = ['-']) (hd : d.isDigit = true) (hs : Run s) :
      Run (u ++ (v ++ d :: s))

/-! ## Numbers make up runs -/

theorem Run.append {s t : List Char} (hs : Run s) (ht : Run t) : Run (s ++ t) := by
  induction hs with
  | nil => exact ht
  | digit hu hv hd _ ih =>
      simp only [List.append_assoc, List.cons_append]
      exact .digit hu hv hd ih

theorem run_of_isDigit {ds : List Char} (h : ∀ d ∈ ds, d.isDigit = true) : Run ds := by
  induction ds with
  | nil => exact .nil
  | cons d ds ih =>
      obtain ⟨hd, hds⟩ := List.forall_mem_cons.mp h
      exact .digit (u := []) (v := []) (.inl rfl) (.inl rfl) hd (ih hds)

/-- A leftover, an optional minus and digits are a run. -/
theorem IsDigits.run_append {u v ds : List Char} (h : IsDigits ds) (hu : u = [] ∨ u ∈ leftovers)
    (hv : v = [] ∨ v = ['-']) : Run (u ++ (v ++ ds)) := by
  obtain ⟨d, ds, rfl⟩ := List.exists_cons_of_ne_nil h.1
  obtain ⟨hd, hds⟩ := List.forall_mem_cons.mp h.2
  exact .digit hu hv hd (run_of_isDigit hds)

theorem IsInteger.isDigits {i : List Char} (h : IsInteger i) : IsDigits i := by
  refine ⟨?_, fun d hd => h.isDigit_of_mem hd⟩
  obtain ⟨c, ds, rfl, -⟩ := h.head_isDigit
  exact List.cons_ne_nil c ds

theorem IsFraction.run {f : List Char} (h : IsFraction f) : Run f := by
  cases h with
  | none => exact .nil
  | point hds => exact hds.run_append (u := ['.']) (v := []) (.inr (by decide)) (.inl rfl)

theorem IsExponent.run {e : List Char} (h : IsExponent e) : Run e := by
  cases h with
  | none => exact .nil
  | @letter c sgn ds hc hsgn hds =>
      have hletter : [c] ∈ leftovers := by
        rcases hc with rfl | rfl <;> decide
      rcases hsgn with rfl | rfl | rfl
      · exact hds.run_append (u := [c]) (.inr hletter) (.inl rfl)
      · have hplus : [c, '+'] ∈ leftovers := by
          rcases hc with rfl | rfl <;> decide
        exact hds.run_append (u := [c, '+']) (v := []) (.inr hplus) (.inl rfl)
      · exact hds.run_append (u := [c]) (.inr hletter) (.inr rfl)

theorem IsNumber.run {m : List Char} (h : IsNumber m) : Run m := by
  obtain ⟨hsgn, hi, hf, he⟩ := h
  have hint := hi.isDigits.run_append (u := []) (.inl rfl) hsgn
  exact (hint.append hf.run).append he.run

/-! ## What a number leaves of a run -/

/-- The text ends with a digit, if it ends at all. -/
def EndsWithDigit (s : List Char) : Prop :=
  ∀ c ∈ s.getLast?, c.isDigit = true

theorem EndsWithDigit.append {s t : List Char} (hs : EndsWithDigit s) (ht : EndsWithDigit t) :
    EndsWithDigit (s ++ t) := by
  intro c hc
  rw [List.getLast?_append, Option.mem_def, Option.or_eq_some_iff] at hc
  rcases hc with hc | ⟨-, hc⟩
  · exact ht c hc
  · exact hs c hc

theorem IsDigits.endsWithDigit_append {ds : List Char} (h : IsDigits ds) (s : List Char) :
    EndsWithDigit (s ++ ds) := by
  obtain ⟨a, d, rfl⟩ := (List.eq_nil_or_concat' ds).resolve_left h.1
  intro c hc
  rw [← List.append_assoc, List.getLast?_concat] at hc
  obtain rfl := Option.some.inj hc
  exact h.2 d (by simp)

theorem IsNumber.endsWithDigit {m : List Char} (h : IsNumber m) : EndsWithDigit m := by
  have hnil : EndsWithDigit [] := by
    intro c hc
    simp at hc
  obtain @⟨sgn, i, f, e, -, hi, hf, he⟩ := h
  refine ((hi.isDigits.endsWithDigit_append sgn).append ?_).append ?_
  · cases hf with
    | none => exact hnil
    | point hds => exact hds.endsWithDigit_append ['.']
  · cases he with
    | none => exact hnil
    | @letter c sgn ds _ _ hds => exact hds.endsWithDigit_append (c :: sgn)

/-- Before a digit of a run there are no other digits. -/
theorem isDigit_eq_false_of_mem_mark {u v : List Char} {c : Char} (hu : u = [] ∨ u ∈ leftovers)
    (hv : v = [] ∨ v = ['-']) (hc : c ∈ u ++ v) : c.isDigit = false := by
  have hall : ∀ v ∈ leftovers, (v.all fun d => !d.isDigit) = true := by decide
  rcases List.mem_append.mp hc with hc | hc
  · rcases hu with rfl | hu
    · simp at hc
    · simpa using List.all_eq_true.mp (hall u hu) c hc
  · rcases hv with rfl | rfl
    · simp at hc
    · obtain rfl := List.mem_singleton.mp hc
      decide

/-- What stands behind a digit of a run is a run. -/
theorem Run.of_append_digit {w s : List Char} {d : Char} (hw : Run w) {a : List Char}
    (h : w = a ++ d :: s) (hd : d.isDigit = true) : Run s := by
  induction hw generalizing a with
  | nil => exact absurd h.symm (by simp)
  | @digit u v t e hu hv _ ht ih =>
      have hmark : d ∉ u ++ v := fun hmem =>
        absurd hd (Bool.eq_false_iff.mp (isDigit_eq_false_of_mem_mark hu hv hmem))
      rw [← List.append_assoc] at h
      obtain ⟨b, rfl, hb⟩ := exists_eq_append_of_notMem h hmark
      cases b with
      | nil =>
          obtain ⟨-, rfl⟩ := List.cons.inj hb
          exact ht
      | cons c b => exact ih (List.cons.inj hb).2

/-- A number that is cut off the head of a run leaves a run. -/
theorem Run.of_number_append {m s : List Char} (h : Run (m ++ s)) (hm : IsNumber m) : Run s := by
  obtain ⟨a, d, rfl⟩ := (List.eq_nil_or_concat' m).resolve_left hm.ne_nil
  have hd : d.isDigit = true := hm.endsWithDigit d (by simp)
  exact h.of_append_digit (List.append_assoc a [d] s) hd

end JsonText.Lexeme
