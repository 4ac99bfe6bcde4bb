-- SUMMARY: The number grammar, and how far the recogniser for numbers reads.
import JsonText.Lexeme.Number

/-!
# Numbers against their grammar

The grammar says what a number is, without saying how it is found. Two facts tie
the recogniser to it. What it cuts off is a number, and no digit follows unless
the number is a bare zero. The other way round, a number in front of any text
that cannot prolong it is cut off whole.
-/

namespace JsonText.Lexeme

/-! ## Runs -/

/-- A run of characters of a class ends where no character of the class follows. -/
theorem run_append {p : Char → Bool} {g r : List Char} (hg : ∀ c ∈ g, p c = true)
    (hr : ∀ c ∈ r.head?, p c = false) :
    (g ++ r).takeWhile p = g ∧ (g ++ r).dropWhile p = r := by
  rw [List.takeWhile_append_of_pos hg, List.dropWhile_append_of_pos hg]
  cases r with
  | nil => simp
  | cons c r => simp [hr c rfl]

theorem head_dropWhile {p : Char → Bool} {s : List Char} :
    ∀ c ∈ (s.dropWhile p).head?, p c = false := by
  intro c hc
  have h := List.head?_dropWhile_not p s
  rw [Option.mem_def.mp hc] at h
  exact h

/-- A character that the first part does not hold stands behind it. -/
theorem exists_eq_append_of_notMem {c : Char} {l r p q : List Char} (h : l ++ r = p ++ c :: q)
    (hc : c ∉ l) : ∃ t, p = l ++ t ∧ r = t ++ c :: q := by
  rcases List.append_eq_append_iff.mp h with ⟨t, hp, hr⟩ | ⟨t, hl, hq⟩
  · exact ⟨t, hp, hr⟩
  · cases t with
    | nil => exact ⟨[], by simp [hl], hq.symm⟩
    | cons d t =>
      obtain rfl : c = d := (List.cons.inj hq).1
      exact absurd (by simp [hl]) hc

/-! ## The grammar -/

/-- One digit or more. -/
def IsDigits (ds : List Char) : Prop :=
  ds ≠ [] ∧ ∀ d ∈ ds, d.isDigit = true

/-- A zero alone, or digits that do not begin with zero. -/
inductive IsInteger : List Char → Prop where
  | zero : IsInteger ['0']
  | digits {c : Char} {ds : List Char} (hc : c.isDigit = true) (h0 : c ≠ '0')
      (hds : ∀ d ∈ ds, d.isDigit = true) : IsInteger (c :: ds)

/-- Nothing, or a point and digits. -/
inductive IsFraction : List Char → Prop where
  | none : IsFraction []
  | point {ds : List Char} (hds : IsDigits ds) : IsFraction ('.' :: ds)

/-- Nothing, or a letter, an optional sign and digits. -/
inductive IsExponent : List Char → Prop where
  | none : IsExponent []
  | letter {c : Char} {sgn ds : List Char} (hc : c = 'e' ∨ c = 'E')
      (hsgn : sgn = [] ∨ sgn = ['+'] ∨ sgn = ['-']) (hds : IsDigits ds) :
      IsExponent (c :: (sgn ++ ds))

/-- A number: an optional minus, an integer part, a fraction and an exponent. -/
inductive IsNumber : List Char → Prop where
  | mk {sgn i f e : List Char} (hsgn : sgn = [] ∨ sgn = ['-']) (hi : IsInteger i)
      (hf : IsFraction f) (he : IsExponent e) : IsNumber (sgn ++ i ++ f ++ e)

/-- The number is a zero without fraction and exponent. -/
def IsBareZero (m : List Char) : Prop :=
  m = ['0'] ∨ m = ['-', '0']

/-- The text does not begin with a digit. -/
def NoDigit (r : List Char) : Prop :=
  ∀ c ∈ r.head?, c.isDigit = false

/-- The text begins neither with a point nor with an exponent letter. -/
def NoPart (r : List Char) : Prop :=
  ∀ c ∈ r.head?, c ≠ '.' ∧ c ≠ 'e' ∧ c ≠ 'E'

theorem IsInteger.head_isDigit {i : List Char} (h : IsInteger i) :
    ∃ c ds, i = c :: ds ∧ c.isDigit = true := by
  cases h with
  | zero => exact ⟨'0', [], rfl, by decide⟩
  | digits hc h0 hds => exact ⟨_, _, rfl, hc⟩

theorem isInteger_singleton {c : Char} (hc : c.isDigit = true) : IsInteger [c] := by
  by_cases h0 : c = '0'
  · rw [h0]
    exact .zero
  · exact .digits hc h0 (List.forall_mem_nil _)

theorem isNumber_digit {c : Char} (hc : c.isDigit = true) : IsNumber [c] :=
  .mk (.inl rfl) (isInteger_singleton hc) .none .none

/-- A number begins with a minus or with a digit. -/
theorem IsNumber.head_eq {m : List Char} (h : IsNumber m) :
    ∃ c r, m = c :: r ∧ (c = '-' ∨ c.isDigit = true) := by
  obtain ⟨hsgn, hi, -, -⟩ := h
  obtain ⟨c, ds, rfl, hc⟩ := hi.head_isDigit
  rcases hsgn with rfl | rfl
  · exact ⟨c, _, rfl, .inr hc⟩
  · exact ⟨'-', _, rfl, .inl rfl⟩

theorem IsNumber.ne_nil {m : List Char} (h : IsNumber m) : m ≠ [] := by
  obtain ⟨c, r, rfl, -⟩ := h.head_eq
  exact List.cons_ne_nil c r

/-! ## What is cut off is a number -/

theorem noDigit_digits (s : List Char) : NoDigit (digits s).2 :=
  head_dropWhile

theorem isDigit_of_mem_digits {s : List Char} {d : Char} (h : d ∈ (digits s).1) :
    d.isDigit = true :=
  List.all_eq_true.mp List.all_takeWhile d h

theorem isInteger_of_integer? {s i r : List Char} (h : integer? s = some (i, r)) :
    IsInteger i ∧ (i = ['0'] ∨ NoDigit r) := by
  cases s with
  | nil => simp [integer?] at h
  | cons c t =>
    simp only [integer?, beq_iff_eq] at h
    split at h
    · next h0 =>
      simp only [Option.some.injEq, Prod.mk.injEq] at h
      obtain ⟨rfl, rfl⟩ := h
      subst h0
      exact ⟨.zero, .inl rfl⟩
    · next h0 =>
      split at h
      · next hc =>
        simp only [Option.some.injEq, Prod.mk.injEq] at h
        obtain ⟨rfl, rfl⟩ := h
        exact ⟨.digits hc h0 fun d hd => isDigit_of_mem_digits hd, .inr (noDigit_digits t)⟩
      · simp at h

/-- A fraction is read up to the end of its digits, and an absent one leaves the text. -/
theorem isFraction_fraction (s : List Char) : IsFraction (fraction s).1 ∧
    ((fraction s).1 = [] ∧ (fraction s).2 = s ∨ NoDigit (fraction s).2) := by
  unfold fraction
  split
  · next r =>
    split
    · exact ⟨.none, .inl ⟨rfl, rfl⟩⟩
    · next ds r' hne hd =>
      have h₁ : (digits r).1 = ds := by rw [hd]
      have h₂ : (digits r).2 = r' := by rw [hd]
      subst h₁ h₂
      exact ⟨.point ⟨hne, fun d => isDigit_of_mem_digits⟩, .inr (noDigit_digits r)⟩
  · exact ⟨.none, .inl ⟨rfl, rfl⟩⟩

theorem exponentSign_eq (s : List Char) :
    (exponentSign s).1 = [] ∨ (exponentSign s).1 = ['+'] ∨ (exponentSign s).1 = ['-'] := by
  unfold exponentSign
  split
  · exact .inr (.inl rfl)
  · exact .inr (.inr rfl)
  · exact .inl rfl

/-- An exponent is read up to the end of its digits, and an absent one leaves the text. -/
theorem isExponent_exponent (s : List Char) : IsExponent (exponent s).1 ∧
    ((exponent s).1 = [] ∧ (exponent s).2 = s ∨ NoDigit (exponent s).2) := by
  unfold exponent
  split
  · exact ⟨.none, .inl ⟨rfl, rfl⟩⟩
  · next c r =>
    split
    · next hc =>
      split
      · exact ⟨.none, .inl ⟨rfl, rfl⟩⟩
      · next ds r' hne hd =>
        have h₁ : (digits (exponentSign r).2).1 = ds := by rw [hd]
        have h₂ : (digits (exponentSign r).2).2 = r' := by rw [hd]
        subst h₁ h₂
        exact ⟨.letter (by simpa using hc) (exponentSign_eq r)
          ⟨hne, fun d => isDigit_of_mem_digits⟩, .inr (noDigit_digits _)⟩
    · exact ⟨.none, .inl ⟨rfl, rfl⟩⟩

theorem sign_eq (s : List Char) : (sign s).1 = [] ∨ (sign s).1 = ['-'] := by
  unfold sign
  split
  · exact .inr rfl
  · exact .inl rfl

/-- What is cut off is a number, and unless it is a bare zero no digit follows it. -/
theorem isNumber_of_number? {s m r : List Char} (h : number? s = some (m, r)) :
    IsNumber m ∧ (IsBareZero m ∨ NoDigit r) := by
  unfold number? at h
  cases hi : integer? (sign s).2 with
  | none => simp [hi] at h
  | some p =>
    obtain ⟨i, s₁⟩ := p
    simp only [hi, Option.bind_eq_bind, Option.bind_some, Option.some.injEq, Prod.mk.injEq] at h
    obtain ⟨rfl, rfl⟩ := h
    obtain ⟨hint, hi'⟩ := isInteger_of_integer? hi
    obtain ⟨hfrac, hf⟩ := isFraction_fraction s₁
    obtain ⟨hexp, he⟩ := isExponent_exponent (fraction s₁).2
    refine ⟨.mk (sign_eq s) hint hfrac hexp, ?_⟩
    -- The digit that might follow is looked for behind the last part that is there.
    rcases he with ⟨he, her⟩ | he
    · rw [he, her]
      rcases hf with ⟨hf, hfr⟩ | hf
      · rw [hf, hfr]
        rcases hi' with rfl | hi'
        · rcases sign_eq s with hs | hs
          · exact .inl (.inl (by rw [hs]; rfl))
          · exact .inl (.inr (by rw [hs]; rfl))
        · exact .inr hi'
      · exact .inr hf
    · exact .inr he

/-! ## A number is cut off whole -/

theorem digits_append_of_noDigit {ds r : List Char} (hds : ∀ d ∈ ds, d.isDigit = true)
    (hr : NoDigit r) : digits (ds ++ r) = (ds, r) := by
  obtain ⟨ht, hd⟩ := run_append hds hr
  rw [digits, ht, hd]

theorem integer?_append {i r : List Char} (hi : IsInteger i) (hr : i = ['0'] ∨ NoDigit r) :
    integer? (i ++ r) = some (i, r) := by
  cases hi with
  | zero => rfl
  | @digits c ds hc h0 hds =>
    have hr : NoDigit r := hr.resolve_left (by simp [h0])
    simp [integer?, h0, hc, digits_append_of_noDigit hds hr]

/-- Behind a point the digits decide whether there is a fraction. -/
theorem fraction_point (r : List Char) : fraction ('.' :: r) =
    if (digits r).1 = [] then ([], '.' :: r) else ('.' :: (digits r).1, (digits r).2) := by
  rw [fraction]
  split
  · next heq => rw [heq, if_pos rfl]
  · next hne heq => rw [heq, if_neg hne]

theorem fraction_of_ne_point {s : List Char} (h : ∀ c ∈ s.head?, c ≠ '.') :
    fraction s = ([], s) := by
  unfold fraction
  split
  · exact absurd rfl (h '.' rfl)
  · rfl

theorem fraction_append_of_noDigit {f r : List Char} (hf : IsFraction f)
    (h₀ : f = [] → fraction r = ([], r)) (h₁ : f ≠ [] → NoDigit r) :
    fraction (f ++ r) = (f, r) := by
  cases hf with
  | none => exact h₀ rfl
  | @point ds hds =>
    have hd := digits_append_of_noDigit hds.2 (h₁ (by simp))
    rw [List.cons_append, fraction_point, hd, if_neg hds.1]

theorem exponentSign_sign {c : Char} (hc : c = '+' ∨ c = '-') (r : List Char) :
    exponentSign (c :: r) = ([c], r) := by
  rcases hc with rfl | rfl <;> rfl

theorem exponentSign_of_ne_sign {s : List Char} (h : ∀ c ∈ s.head?, c ≠ '+' ∧ c ≠ '-') :
    exponentSign s = ([], s) := by
  unfold exponentSign
  split
  · exact absurd rfl (h '+' rfl).1
  · exact absurd rfl (h '-' rfl).2
  · rfl

theorem exponentSign_append_of_isDigits {sgn ds r : List Char}
    (hsgn : sgn = [] ∨ sgn = ['+'] ∨ sgn = ['-']) (hds : IsDigits ds) :
    exponentSign (sgn ++ (ds ++ r)) = (sgn, ds ++ r) := by
  rcases hsgn with rfl | rfl | rfl
  · obtain ⟨d, ds, rfl⟩ := List.exists_cons_of_ne_nil hds.1
    have hd : d.isDigit = true := hds.2 d (by simp)
    refine exponentSign_of_ne_sign fun c hc => ?_
    obtain rfl : d = c := Option.some.inj hc
    constructor <;> rintro rfl <;> exact absurd hd (by decide)
  · exact exponentSign_sign (.inl rfl) _
  · exact exponentSign_sign (.inr rfl) _

/-- Behind a letter and a sign the digits decide whether there is an exponent. -/
theorem exponent_letter {c : Char} (hc : c = 'e' ∨ c = 'E') (r : List Char) : exponent (c :: r) =
    if (digits (exponentSign r).2).1 = [] then ([], c :: r)
    else (c :: ((exponentSign r).1 ++ (digits (exponentSign r).2).1),
      (digits (exponentSign r).2).2) := by
  rw [exponent, if_pos (by simpa using hc)]
  split
  · next heq => rw [heq, if_pos rfl]
  · next hne heq => rw [heq, if_neg hne]

theorem exponent_of_ne_letter {s : List Char} (h : ∀ c ∈ s.head?, c ≠ 'e' ∧ c ≠ 'E') :
    exponent s = ([], s) := by
  cases s with
  | nil => rfl
  | cons c s =>
    obtain ⟨he, hE⟩ := h c rfl
    simp [exponent, he, hE]

theorem exponent_append_of_noDigit {e r : List Char} (he : IsExponent e)
    (h₀ : e = [] → exponent r = ([], r)) (h₁ : e ≠ [] → NoDigit r) :
    exponent (e ++ r) = (e, r) := by
  cases he with
  | none => exact h₀ rfl
  | @letter c sgn ds hc hsgn hds =>
    have hd := digits_append_of_noDigit hds.2 (h₁ (by simp))
    have hs := exponentSign_append_of_isDigits (r := r) hsgn hds
    rw [List.cons_append, List.append_assoc, exponent_letter hc, hs, hd, if_neg hds.1]

theorem sign_of_ne_minus {s : List Char} (h : ∀ c ∈ s.head?, c ≠ '-') : sign s = ([], s) := by
  unfold sign
  split
  · exact absurd rfl (h '-' rfl)
  · rfl

theorem sign_append_of_isInteger {sgn i r : List Char} (hsgn : sgn = [] ∨ sgn = ['-'])
    (hi : IsInteger i) : sign (sgn ++ (i ++ r)) = (sgn, i ++ r) := by
  rcases hsgn with rfl | rfl
  · obtain ⟨d, ds, rfl, hd⟩ := hi.head_isDigit
    refine sign_of_ne_minus fun c hc => ?_
    obtain rfl : d = c := Option.some.inj hc
    rintro rfl
    exact absurd hd (by decide)
  · rfl

/-- A bare zero has neither fraction nor exponent, and its integer part is zero. -/
theorem parts_of_isBareZero {sgn i f e : List Char} (hsgn : sgn = [] ∨ sgn = ['-'])
    (hi : IsInteger i) (hz : IsBareZero (sgn ++ (i ++ (f ++ e)))) :
    i = ['0'] ∧ f = [] ∧ e = [] := by
  obtain ⟨c, ds, rfl, hc⟩ := hi.head_isDigit
  have hne : c ≠ '-' := by rintro rfl; exact absurd hc (by decide)
  have h : c = '0' ∧ ds ++ (f ++ e) = [] := by
    rcases hsgn with rfl | rfl <;> rcases hz with hz | hz <;> simp_all
  simp only [List.append_eq_nil_iff] at h
  obtain ⟨rfl, rfl, rfl, rfl⟩ := h
  exact ⟨rfl, rfl, rfl⟩

theorem IsExponent.noDigit_append {e r : List Char} (he : IsExponent e) (hr : NoDigit r) :
    NoDigit (e ++ r) := by
  cases he with
  | none => exact hr
  | letter hc _ _ =>
    intro c' hc'
    cases hc'
    rcases hc with rfl | rfl <;> decide

theorem IsExponent.fraction_append {e r : List Char} (he : IsExponent e)
    (hr : fraction r = ([], r)) : fraction (e ++ r) = ([], e ++ r) := by
  cases he with
  | none => exact hr
  | letter hc _ _ =>
    refine fraction_of_ne_point fun c' hc' => ?_
    cases hc'
    rcases hc with rfl | rfl <;> decide

theorem IsFraction.noDigit_append {f r : List Char} (hf : IsFraction f) (hr : NoDigit r) :
    NoDigit (f ++ r) := by
  cases hf with
  | none => exact hr
  | point _ =>
    intro c hc
    cases hc
    decide

/-- A number is cut off whole in front of a text with which neither a fraction nor an exponent
nor, unless it is a bare zero, a digit begins. -/
theorem number?_append_of_parts {m r : List Char} (hm : IsNumber m)
    (hfr : fraction r = ([], r)) (her : exponent r = ([], r)) (hd : IsBareZero m ∨ NoDigit r) :
    number? (m ++ r) = some (m, r) := by
  obtain @⟨sgn, i, f, e, hsgn, hi, hf, he⟩ := hm
  have hzero : (i = ['0'] ∧ f = [] ∧ e = []) ∨ NoDigit r := by
    refine hd.imp_left fun hz => ?_
    exact parts_of_isBareZero hsgn hi (by simpa only [List.append_assoc] using hz)
  have hexp : exponent (e ++ r) = (e, r) :=
    exponent_append_of_noDigit he (fun _ => her) fun hne =>
      hzero.resolve_left fun h => hne h.2.2
  have hfrac : fraction (f ++ (e ++ r)) = (f, e ++ r) :=
    fraction_append_of_noDigit hf (fun _ => he.fraction_append hfr) fun hne =>
      he.noDigit_append (hzero.resolve_left fun h => hne h.2.1)
  have hint : integer? (i ++ (f ++ (e ++ r))) = some (i, f ++ (e ++ r)) :=
    integer?_append hi (hzero.imp And.left fun h => hf.noDigit_append (he.noDigit_append h))
  have hsign := sign_append_of_isInteger (r := f ++ (e ++ r)) hsgn hi
  unfold number?
  simp only [List.append_assoc, hsign, hint, Option.bind_eq_bind, Option.bind_some, hfrac, hexp]

/-- A number is cut off whole in front of a text that neither goes on with a part of it nor,
unless it is a bare zero, with a digit. -/
theorem number?_append {m r : List Char} (hm : IsNumber m) (hp : NoPart r)
    (hd : IsBareZero m ∨ NoDigit r) : number? (m ++ r) = some (m, r) :=
  number?_append_of_parts hm (fraction_of_ne_point fun c hc => (hp c hc).1)
    (exponent_of_ne_letter fun c hc => (hp c hc).2) hd

/-! ## Parts that break off -/

/-- The text begins with a point or an exponent letter, but no digit comes where the fraction or
the exponent would have its first one. -/
inductive BreaksOff : List Char → Prop where
  | point {r : List Char} (hr : NoDigit r) : BreaksOff ('.' :: r)
  | letter {c : Char} {r : List Char} (hc : c = 'e' ∨ c = 'E') (hr : NoDigit r)
      (hsgn : ∀ s ∈ r.head?, s ≠ '+' ∧ s ≠ '-') : BreaksOff (c :: r)
  | sign {c s : Char} {r : List Char} (hc : c = 'e' ∨ c = 'E') (hs : s = '+' ∨ s = '-')
      (hr : NoDigit r) : BreaksOff (c :: s :: r)

variable {r : List Char}

theorem digits_of_noDigit (h : NoDigit r) : digits r = ([], r) :=
  digits_append_of_noDigit (List.forall_mem_nil _) h

theorem BreaksOff.fraction_eq (h : BreaksOff r) : fraction r = ([], r) := by
  cases h with
  | point hr => rw [fraction_point, digits_of_noDigit hr, if_pos rfl]
  | letter hc _ _ | sign hc _ _ =>
    refine fraction_of_ne_point fun c hc' => ?_
    cases hc'
    rcases hc with rfl | rfl <;> decide

theorem BreaksOff.exponent_eq (h : BreaksOff r) : exponent r = ([], r) := by
  cases h with
  | point _ => exact exponent_of_ne_letter fun c hc => by cases hc; decide
  | letter hc hr hsgn =>
    rw [exponent_letter hc, exponentSign_of_ne_sign hsgn, digits_of_noDigit hr, if_pos rfl]
  | sign hc hs hr =>
    rw [exponent_letter hc, exponentSign_sign hs, digits_of_noDigit hr, if_pos rfl]

theorem BreaksOff.noDigit (h : BreaksOff r) : NoDigit r := by
  intro c hc
  cases h with
  | point _ =>
    cases hc
    decide
  | letter hl _ _ | sign hl _ _ =>
    cases hc
    rcases hl with rfl | rfl <;> decide

/-- A part that breaks off belongs to the text that follows. -/
theorem number?_append_of_breaksOff {m : List Char} (hm : IsNumber m) (hr : BreaksOff r) :
    number? (m ++ r) = some (m, r) :=
  number?_append_of_parts hm hr.fraction_eq hr.exponent_eq (.inr hr.noDigit)

end JsonText.Lexeme
