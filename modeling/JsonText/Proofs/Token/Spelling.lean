-- SUMMARY: The spellings of each kind of token, and reading one at the head of a text.
import JsonText.Token.Basic
import JsonText.Lexeme.Search
import JsonText.Proofs.Lexeme.Number
import JsonText.Proofs.Lexeme.Quoted

/-!
# Spellings

Each kind has its spellings. The leading character of a text leaves one
recogniser in play, and the kind that it announces is the kind of whatever that
recogniser cuts off. Reading a spelling back is then a question for one kind at
a time, and only blanks, strings and numbers ask what follows.
-/

namespace JsonText

open Token (Kind)

/-- The text holds nothing but blanks. -/
def Lexeme.Blank (g : List Char) : Prop :=
  ∀ c ∈ g, isBlank c = true

instance (g : List Char) : Decidable (Lexeme.Blank g) :=
  decidable_of_iff (g.all Lexeme.isBlank = true) List.all_eq_true

/-- The texts that are lexemes of a kind. Unknown text is no lexeme. -/
def Token.Kind.Spells : Kind → List Char → Prop
  | .unknown, _ => False
  | .whitespace, m => m ≠ [] ∧ Lexeme.Blank m
  | .braceOpen, m => m = ['{']
  | .braceClose, m => m = ['}']
  | .bracketOpen, m => m = ['[']
  | .bracketClose, m => m = [']']
  | .comma, m => m = [',']
  | .colon, m => m = [':']
  | .trueWord, m => m = ['t', 'r', 'u', 'e']
  | .falseWord, m => m = ['f', 'a', 'l', 's', 'e']
  | .nullWord, m => m = ['n', 'u', 'l', 'l']
  | .string, m => Lexeme.IsClosed m ∨ Lexeme.IsForced m
  | .number, m => Lexeme.IsNumber m

/-- Where a spelling `m` of the kind ends, a text `r` stands that neither prolongs a run of
blanks or, unless it is a bare zero, a number by a digit, nor closes a forced string later. -/
def Token.Kind.Stops : Kind → List Char → List Char → Prop
  | .whitespace, _, r => ∀ c ∈ r.head?, Lexeme.isBlank c = false
  | .string, m, r => Lexeme.IsForced m → '"' ∉ r
  | .number, m, r => Lexeme.IsBareZero m ∨ Lexeme.NoDigit r
  | _, _, _ => True

theorem Token.Kind.ofLeadChar_of_isBlank {c : Char} (h : Lexeme.isBlank c = true) :
    ofLeadChar c = .whitespace := by
  simp only [Lexeme.isBlank, Bool.or_eq_true, beq_iff_eq] at h
  rcases h with ((rfl | rfl) | rfl) | rfl <;> rfl

theorem Token.Kind.ofLeadChar_of_isDigit {c : Char} (h : c.isDigit = true) :
    ofLeadChar c = .number := by
  unfold ofLeadChar
  split <;> simp_all

/-- A spelling announces its own kind. -/
theorem Token.Kind.Spells.ofChars_eq {k : Kind} {m : List Char} (h : k.Spells m) :
    ofChars m = k := by
  cases k with
  | unknown => exact absurd h id
  | whitespace =>
      obtain ⟨c, m, rfl⟩ := List.exists_cons_of_ne_nil h.1
      exact ofLeadChar_of_isBlank (h.2 c (by simp))
  | string => rcases h with ⟨b, rfl, -⟩ | ⟨b, rfl, -⟩ <;> rfl
  | number =>
      obtain ⟨c, r, rfl, rfl | hc⟩ := Lexeme.IsNumber.head_eq h
      · rfl
      · exact ofLeadChar_of_isDigit hc
  | _ => rw [show m = _ from h]; rfl

theorem Token.Kind.Spells.not_isForced {k : Kind} {m : List Char} (h : k.Spells m)
    (hk : k ≠ .string) : ¬ Lexeme.IsForced m := fun hf =>
  hk (h.ofChars_eq.symm.trans (Spells.ofChars_eq (k := .string) (.inr hf)))

theorem Token.Kind.Spells.ofLeadChar_head {k : Kind} {m : List Char} (h : k.Spells m) :
    ∀ c ∈ m.head?, ofLeadChar c = k := by
  intro c hc
  cases m with
  | nil => simp at hc
  | cons d m =>
      obtain rfl : d = c := by simpa using hc
      exact h.ofChars_eq

/-- No spelling begins in the middle of a number. -/
theorem Token.Kind.Spells.noPart {k : Kind} {m : List Char} (h : k.Spells m) :
    Lexeme.NoPart m := by
  intro c hc
  have hk := h.ofLeadChar_head c hc
  have hunknown : k ≠ .unknown := by rintro rfl; exact h
  refine ⟨?_, ?_, ?_⟩ <;> rintro rfl <;> exact hunknown hk.symm

theorem Token.Kind.Spells.ne_nil {k : Kind} {m : List Char} (h : k.Spells m) : m ≠ [] := by
  rintro rfl
  cases k with
  | unknown => exact h
  | whitespace => exact h.1 rfl
  | string => rcases h with ⟨b, hb, -⟩ | ⟨b, hb, -⟩ <;> simp at hb
  | number => exact Lexeme.IsNumber.ne_nil h rfl
  | _ => simp [Spells] at h

namespace Lexeme

/-! ## What is read is a spelling -/

theorem spells_of_blanks? {s m r : List Char} (h : blanks? s = some (m, r)) :
    Kind.whitespace.Spells m ∧ Kind.whitespace.Stops m r := by
  unfold blanks? at h
  split at h
  · simp at h
  · next hne =>
    simp only [Option.some.injEq, Prod.mk.injEq] at h
    obtain ⟨rfl, rfl⟩ := h
    exact ⟨⟨hne, fun c hc => List.all_eq_true.mp List.all_takeWhile c hc⟩, head_dropWhile⟩

theorem spells_of_punctuation? {s m r : List Char} (h : punctuation? s = some (m, r)) :
    ∃ k : Kind, k.Spells m ∧ k.Stops m r := by
  cases s with
  | nil => simp [punctuation?] at h
  | cons c t =>
    simp only [punctuation?, isPunctuation, Bool.or_eq_true, beq_iff_eq] at h
    split at h
    · next hc =>
      simp only [Option.some.injEq, Prod.mk.injEq] at h
      obtain ⟨rfl, -⟩ := h
      rcases hc with ((((rfl | rfl) | rfl) | rfl) | rfl) | rfl
      · exact ⟨.braceOpen, rfl, trivial⟩
      · exact ⟨.braceClose, rfl, trivial⟩
      · exact ⟨.bracketOpen, rfl, trivial⟩
      · exact ⟨.bracketClose, rfl, trivial⟩
      · exact ⟨.comma, rfl, trivial⟩
      · exact ⟨.colon, rfl, trivial⟩
    · simp at h

theorem eq_of_word? {w s m r : List Char} (h : word? w s = some (m, r)) : m = w := by
  unfold word? at h
  split at h
  · simp only [Option.some.injEq, Prod.mk.injEq] at h
    exact h.1.symm
  · simp at h

theorem spells_of_anyWord? {s m r : List Char} (h : anyWord? s = some (m, r)) :
    ∃ k : Kind, k.Spells m ∧ k.Stops m r := by
  simp only [anyWord?, Option.orElse_eq_orElse, Option.orElse_eq_or, Option.or_eq_some_iff] at h
  rcases h with h | ⟨-, h | ⟨-, h⟩⟩
  · exact ⟨.trueWord, eq_of_word? h, trivial⟩
  · exact ⟨.falseWord, eq_of_word? h, trivial⟩
  · exact ⟨.nullWord, eq_of_word? h, trivial⟩

theorem spells_of_quoted? {s m r : List Char} (h : quoted? s = some (m, r)) :
    Kind.string.Spells m ∧ Kind.string.Stops m r := by
  rcases (quoted?_eq_some_iff.mp h).2 with hm | ⟨hm, hr⟩
  · exact ⟨.inl hm, fun hf => absurd hf (not_isForced_of_isClosed hm)⟩
  · exact ⟨.inr hm, fun _ => hr⟩

/-- What is read spells some kind, and the text behind it does not belong to it. -/
theorem spells_of_read? {s m r : List Char} (h : read? s = some (m, r)) :
    ∃ k : Kind, k.Spells m ∧ k.Stops m r := by
  simp only [read?, Option.orElse_eq_orElse, Option.orElse_eq_or, Option.or_eq_some_iff] at h
  rcases h with h | ⟨-, h | ⟨-, h | ⟨-, h | ⟨-, h⟩⟩⟩⟩
  · exact ⟨.whitespace, spells_of_blanks? h⟩
  · exact spells_of_punctuation? h
  · exact spells_of_anyWord? h
  · exact ⟨.string, spells_of_quoted? h⟩
  · exact ⟨.number, isNumber_of_number? h⟩

/-- The kind that is spelled is the one that the first character announces. -/
theorem spells_ofChars_of_read? {s m r : List Char} (h : read? s = some (m, r)) :
    (Kind.ofChars m).Spells m ∧ (Kind.ofChars m).Stops m r := by
  obtain ⟨k, hspells, hstops⟩ := spells_of_read? h
  rw [hspells.ofChars_eq]
  exact ⟨hspells, hstops⟩

theorem kind_ne_unknown_of_read? {s m r : List Char} (h : read? s = some (m, r)) :
    (Token.ofChars m).kind ≠ .unknown := by
  intro hk
  have hspells := (spells_ofChars_of_read? h).1
  rw [Token.kind_ofChars] at hk
  rw [hk] at hspells
  exact hspells

/-! ## A spelling is read back -/

theorem read?_blanks_append {g r : List Char} (hg : Kind.whitespace.Spells g)
    (hr : Kind.whitespace.Stops g r) : read? (g ++ r) = some (g, r) := by
  obtain ⟨ht, hd⟩ := run_append hg.2 hr
  obtain ⟨c, g', rfl⟩ := List.exists_cons_of_ne_nil hg.1
  have h : blanks? (c :: g' ++ r) = some (c :: g', r) := by
    rw [blanks?, ht, hd]
  rw [read?, h]
  rfl

/-- Only the recogniser for numbers is in play behind a minus or a digit. -/
theorem read?_eq_number? {c : Char} (hc : c = '-' ∨ c.isDigit = true) (s : List Char) :
    read? (c :: s) = number? (c :: s) := by
  have hne : ∀ d : Char, d ≠ '-' → d.isDigit = false → c ≠ d := by
    rintro d hm hd rfl
    rcases hc with rfl | hc
    · exact hm rfl
    · rw [hc] at hd
      exact absurd hd (by decide)
  have hblank : blanks? (c :: s) = none := by
    simp [blanks?, isBlank, hne]
  have hpunct : punctuation? (c :: s) = none := by
    simp [punctuation?, isPunctuation, hne]
  have hword : anyWord? (c :: s) = none := by
    simp [anyWord?, word?, (hne _ _ _).symm]
  have hquote : quoted? (c :: s) = none :=
    quoted?_of_ne_quote (hne _ (by decide) (by decide)) s
  simp [read?, hblank, hpunct, hword, hquote]

theorem IsNumber.read?_append {m : List Char} (h : IsNumber m) (s : List Char) :
    read? (m ++ s) = number? (m ++ s) := by
  obtain ⟨c, m, rfl, hc⟩ := h.head_eq
  rw [List.cons_append, read?_eq_number? hc]

/-- Only the recogniser for strings is in play behind a quote. -/
theorem read?_eq_quoted? (s : List Char) : read? ('"' :: s) = quoted? ('"' :: s) := by
  simp [read?, blanks?, isBlank, punctuation?, isPunctuation, anyWord?, word?, number?, sign,
    integer?]

/-- A spelling is cut off whole in front of a text that does not belong to it. -/
theorem read?_append {k : Kind} {m r : List Char} (hm : k.Spells m) (hs : k.Stops m r)
    (hp : k = .number → NoPart r) : read? (m ++ r) = some (m, r) := by
  cases k with
  | unknown => exact absurd hm id
  | whitespace => exact read?_blanks_append hm hs
  | string =>
      have h : quoted? (m ++ r) = some (m, r) :=
        quoted?_eq_some_iff.mpr ⟨rfl, hm.imp_right fun hf => ⟨hf, hs hf⟩⟩
      obtain ⟨t, rfl⟩ : ∃ t, m = '"' :: t := by
        rcases hm with ⟨b, rfl, -⟩ | ⟨b, rfl, -⟩ <;> exact ⟨_, rfl⟩
      rw [List.cons_append] at h ⊢
      rw [read?_eq_quoted?, h]
  | number =>
      rw [IsNumber.read?_append hm]
      exact number?_append hm (hp rfl) hs
  | _ =>
      rw [show m = _ from hm]
      rfl

end Lexeme

end JsonText
