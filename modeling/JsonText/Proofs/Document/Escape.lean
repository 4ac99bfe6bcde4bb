-- SUMMARY: A bare quote closes every well-formed string, and the ways to write a text as one.
import JsonText.Document.Escape
import JsonText.Proofs.Lexeme.Quoted

/-!
# Well-formed strings as lexemes

JSON allows fewer strings than the scanner reads: no control character stands in
them, and every backslash begins an escape. In such a string no backslash takes
the last quote along, so the scanner ends it where JSON does. `Quotes` says what it
is to write a text as a string. In whichever way that is done, the string is well
formed and is read back as the text.
-/

namespace JsonText.Escape

open Lexeme (Passes IsClosed)

theorem passes_hexDigit {c : Char} {b : List Char} (hc : (hexDigit? c).isSome = true)
    (hb : Passes b) : Passes (c :: b) := by
  refine .plain ?_ ?_ hb <;> rintro rfl <;> exact absurd hc (by decide)

theorem passes_of_isBody {b : List Char} (h : isBody b = true) : Passes b := by
  fun_induction isBody b with
  | case1 => exact .nil
  | case2 a b c d r ih =>
      simp only [Bool.and_eq_true] at h
      obtain ⟨⟨⟨⟨ha, hb⟩, hc⟩, hd⟩, hr⟩ := h
      exact .escape 'u' (passes_hexDigit ha (passes_hexDigit hb (passes_hexDigit hc
        (passes_hexDigit hd (ih hr)))))
  | case3 c r _ ih =>
      simp only [Bool.and_eq_true] at h
      exact .escape c (ih h.2)
  | case4 c r _ _ ih =>
      simp only [Bool.and_eq_true, bne_iff_ne, ne_eq] at h
      exact .plain h.1.1.1 h.1.1.2 (ih h.2)

theorem eq_of_body? {s : String} {b : List Char} (h : body? s = some b) :
    s.toList = '"' :: b ++ ['"'] := by
  unfold body? at h
  split at h
  · next r hs =>
    split at h
    · next hlast =>
      obtain ⟨t, rfl⟩ := List.getLast?_eq_some_iff.mp hlast
      rw [List.dropLast_concat] at h
      obtain rfl := Option.some.inj h
      exact hs
    · simp at h
  · simp at h

/-- A bare quote closes every well-formed string. -/
theorem isClosed_of_isString {s : String} (h : isString s = true) : IsClosed s.toList := by
  unfold isString at h
  cases hb : body? s with
  | none => rw [hb] at h; exact absurd h (by decide)
  | some b =>
      rw [hb] at h
      exact ⟨b, eq_of_body? hb, passes_of_isBody h⟩

/-! ## The ways to write a text -/

/-- The ways to write a character between quotes. A quote, a backslash and a control character
are escaped, by a letter or a control character by its code, too. Every other character stands
for itself. -/
inductive Writes (c : Char) : List Char → Prop where
  | raw (hq : c ≠ '"') (hb : c ≠ '\\') (hc : 0x20 ≤ c.toNat) : Writes c [c]
  | letter {l : Char} (hl : ofLetter? l = some c)
      (hc : c = '"' ∨ c = '\\' ∨ c.toNat < 0x20) : Writes c ['\\', l]
  | code {x₁ x₂ x₃ x₄ : Char} (hx : hexCode? [x₁, x₂, x₃, x₄] = some (c.toNat, []))
      (hc : c.toNat < 0x20) : Writes c ['\\', 'u', x₁, x₂, x₃, x₄]

/-- The ways to write a text between quotes. -/
inductive WritesAll : List Char → List Char → Prop where
  | nil : WritesAll [] []
  | cons {c : Char} {cs e b : List Char} (hc : Writes c e) (hcs : WritesAll cs b) :
      WritesAll (c :: cs) (e ++ b)

/-- The text `q` is `s` in quotes. -/
def Quotes (s q : String) : Prop :=
  ∃ b, q.toList = '"' :: b ++ ['"'] ∧ WritesAll s.toList b

theorem hexCode?_append {x₁ x₂ x₃ x₄ : Char} {n : Nat}
    (h : hexCode? [x₁, x₂, x₃, x₄] = some (n, [])) (r : List Char) :
    hexCode? (x₁ :: x₂ :: x₃ :: x₄ :: r) = some (n, r) ∧
      (hexDigit? x₁).isSome = true ∧ (hexDigit? x₂).isSome = true ∧
      (hexDigit? x₃).isSome = true ∧ (hexDigit? x₄).isSome = true := by
  simp only [hexCode?, Option.bind_eq_bind, Option.bind_eq_some_iff, Option.pure_def,
    Option.some.injEq, Prod.mk.injEq] at h
  obtain ⟨n₁, h₁, n₂, h₂, n₃, h₃, n₄, h₄, hn, -⟩ := h
  simp [hexCode?, h₁, h₂, h₃, h₄, hn]

theorem ofLetter?_ne_some_of_eq_u {l c : Char} (h : ofLetter? l = some c) : l ≠ 'u' := by
  rintro rfl
  cases h

variable {c : Char} {e cs b r : List Char}

/-- A control character is no half of a surrogate pair. -/
theorem readCode?_of_hexCode? {s : List Char} (h : hexCode? s = some (c.toNat, r))
    (hc : c.toNat < 0x20) : readCode? s = some (c, r) := by
  have hhigh : isHighHalf c.toNat = false := by
    rw [isHighHalf, Bool.and_eq_false_iff]
    exact .inl (decide_eq_false (by omega))
  have hlow : isLowHalf c.toNat = false := by
    rw [isLowHalf, Bool.and_eq_false_iff]
    exact .inl (decide_eq_false (by omega))
  simp [readCode?, h, hhigh, hlow, Char.ofNat_toNat]

/-- A written character is read back. -/
theorem Writes.readChar?_append (h : Writes c e) (r : List Char) :
    readChar? (e ++ r) = some (c, r) := by
  cases h with
  | raw hq hb hc =>
      rw [List.singleton_append, readChar?, if_neg]
      · simp only [not_or, Nat.not_lt]
        exact ⟨hq, hb, hc⟩
      · exact fun _ heq _ => hb heq
      · exact fun _ _ heq _ => hb heq
  | letter hl _ =>
      rw [List.cons_append, List.singleton_append, readChar?, hl]
      · rfl
      · exact fun heq => ofLetter?_ne_some_of_eq_u hl heq
  | code hx hc => exact readCode?_of_hexCode? (hexCode?_append hx r).1 hc

/-- A written character may stand between quotes. -/
theorem Writes.isBody_append (h : Writes c e) (hr : isBody r = true) : isBody (e ++ r) = true := by
  cases h with
  | raw hq hb hc =>
      rw [List.singleton_append, isBody, hr]
      · simp [hq, hb, hc]
      · exact fun _ _ _ _ _ heq _ => hb heq
      · exact fun _ _ heq _ => hb heq
  | letter hl _ =>
      rw [List.cons_append, List.singleton_append, isBody, hl, hr]
      · rfl
      · exact fun _ _ _ _ _ heq _ => ofLetter?_ne_some_of_eq_u hl heq
  | code hx _ =>
      obtain ⟨-, h₁, h₂, h₃, h₄⟩ := hexCode?_append hx []
      simp [isBody, h₁, h₂, h₃, h₄, hr]

theorem WritesAll.isBody (h : WritesAll cs b) : isBody b = true := by
  induction h with
  | nil => rfl
  | cons hc _ ih => exact hc.isBody_append ih

theorem WritesAll.decode?_eq (h : WritesAll cs b) : decode? b = some cs := by
  induction h with
  | nil => exact decode?_nil
  | cons hc _ ih =>
      rw [decode?_of_readChar?_eq_some (hc.readChar?_append _), ih]
      rfl

theorem body?_of_toList {q : String} (h : q.toList = '"' :: b ++ ['"']) : body? q = some b := by
  rw [body?, h]
  change (if (b ++ ['"']).getLast? = some '"' then some (b ++ ['"']).dropLast else none) = some b
  rw [List.getLast?_concat, if_pos rfl, List.dropLast_concat]

namespace Quotes

variable {s q : String}

/-- A text in quotes is a well-formed string. -/
theorem isString (h : Quotes s q) : isString q = true := by
  obtain ⟨b, hq, hb⟩ := h
  rw [Escape.isString, body?_of_toList hq]
  exact hb.isBody

/-- A text in quotes is read back. -/
theorem unquote?_eq (h : Quotes s q) : unquote? q = some s := by
  obtain ⟨b, hq, hb⟩ := h
  rw [unquote?, body?_of_toList hq, Option.bind_some, hb.decode?_eq, Option.map_some,
    String.ofList_toList]

end Quotes

theorem writesAll_raw (h : ∀ c ∈ cs, c ≠ '"' ∧ c ≠ '\\' ∧ 0x20 ≤ c.toNat) : WritesAll cs cs := by
  induction cs with
  | nil => exact .nil
  | cons c cs ih =>
      obtain ⟨⟨hq, hb, hc⟩, hcs⟩ := List.forall_mem_cons.mp h
      exact .cons (.raw hq hb hc) (ih hcs)

/-- A text without anything to escape is only put in quotes. -/
theorem quotes_raw {s : String} (h : ∀ c ∈ s.toList, c ≠ '"' ∧ c ≠ '\\' ∧ 0x20 ≤ c.toNat) :
    Quotes s ("\"" ++ s ++ "\"") :=
  ⟨s.toList, by simp, writesAll_raw h⟩

end JsonText.Escape
