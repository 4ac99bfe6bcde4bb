-- SUMMARY: Texts that spell a list of tokens with blanks around them, and reading them back.
import Mathlib.Data.List.Chain
import JsonText.Proofs.Token.Cutting
import JsonText.Proofs.Token.Spelling

/-!
# Spaced texts

A text spells a list of tokens if it consists of their texts in order, with any
blanks before, between and after them. The scanner reads the tokens back if they
are readable, that is lexemes of their kinds of which no forced string stands
before another quote, and if numbers that would run together are kept apart.
-/

namespace JsonText.Token

open Lexeme

/-- Without a blank between them the first token would take in the head of the second: both
are numbers, the first is not zero, and the second begins with a digit. -/
def Fuses (a b : Token) : Prop :=
  a.kind = .number ∧ a.text ≠ "0" ∧ a.text ≠ "-0" ∧
    b.kind = .number ∧ ∃ c ∈ b.text.toList.head?, c.isDigit = true

instance : DecidableRel Fuses := fun a b =>
  decidable_of_iff (a.kind = .number ∧ a.text ≠ "0" ∧ a.text ≠ "-0" ∧
    b.kind = .number ∧ b.text.toList.head?.any Char.isDigit = true)
    (by simp [Fuses, Option.any_eq_true])

/-- The text consists of the texts of the tokens in order, with blanks around them. At least
one blank stands between neighbours that `apart` relates. -/
inductive Spaced (apart : Token → Token → Prop) : List Token → List Char → Prop where
  | nil {g : List Char} (hg : Blank g) : Spaced apart [] g
  | cons {g s : List Char} {t : Token} {ts : List Token} (hg : Blank g)
      (hap : ∀ u ∈ ts.head?, apart t u → ∃ c ∈ s.head?, isBlank c = true)
      (hs : Spaced apart ts s) : Spaced apart (t :: ts) (g ++ (t.text.toList ++ s))

/-- The tokens can be read back: they are lexemes of their kinds, none of them is blank, and
no quote comes behind a forced string. -/
structure Readable (ts : List Token) : Prop where
  spells : ∀ t ∈ ts, t.kind.Spells t.text.toList
  solid : ∀ t ∈ ts, t.kind ≠ .whitespace
  forced : ts.Pairwise fun t u => IsForced t.text.toList → '"' ∉ u.text.toList

theorem Readable.nil : Readable [] :=
  ⟨by simp, by simp, .nil⟩

theorem Readable.cons {t : Token} {ts : List Token} (hk : t.kind.Spells t.text.toList)
    (hw : t.kind ≠ .whitespace)
    (hq : ∀ u ∈ ts, IsForced t.text.toList → '"' ∉ u.text.toList) (h : Readable ts) :
    Readable (t :: ts) where
  spells := by
    intro u hu
    rcases List.mem_cons.mp hu with rfl | hu
    · exact hk
    · exact h.spells u hu
  solid := by
    intro u hu
    rcases List.mem_cons.mp hu with rfl | hu
    · exact hw
    · exact h.solid u hu
  forced := List.pairwise_cons.mpr ⟨hq, h.forced⟩

theorem Readable.sublist {ts us : List Token} (h : Readable us) (hs : ts.Sublist us) :
    Readable ts where
  spells u hu := h.spells u (hs.subset hu)
  solid u hu := h.solid u (hs.subset hu)
  forced := h.forced.sublist hs

theorem Readable.tail {t : Token} {ts : List Token} (h : Readable (t :: ts)) : Readable ts :=
  h.sublist (List.sublist_cons_self t ts)

/-! ## Building spaced texts -/

theorem Spaced.blank_append {apart : Token → Token → Prop} {ts : List Token}
    {g s : List Char} (hg : Blank g) (h : Spaced apart ts s) : Spaced apart ts (g ++ s) := by
  have happ : ∀ {g'}, Blank g' → Blank (g ++ g') := fun hg' c hc =>
    (List.mem_append.mp hc).elim (hg c) (hg' c)
  cases h with
  | nil hg' => exact .nil (happ hg')
  | cons hg' hap hs =>
      rw [← List.append_assoc]
      exact .cons (happ hg') hap hs

/-- A weaker demand for blanks is met by the same text. -/
theorem Spaced.imp {apart apart' : Token → Token → Prop} {ts : List Token} {s : List Char}
    (hc : ts.IsChain fun a b => apart' a b → apart a b) (h : Spaced apart ts s) :
    Spaced apart' ts s := by
  induction h with
  | nil hg => exact .nil hg
  | cons hg hap _ ih =>
      obtain ⟨hhead, htail⟩ := List.isChain_cons.mp hc
      exact .cons hg (fun u hu h => hap u hu (hhead u hu h)) (ih htail)

/-! ## What a spaced text holds -/

theorem not_isBlank_of_isDigit {c : Char} (hd : c.isDigit = true) : isBlank c ≠ true := by
  intro hb
  have hk := Kind.ofLeadChar_of_isBlank hb
  rw [Kind.ofLeadChar_of_isDigit hd] at hk
  exact absurd hk (by decide)

theorem ne_zero_of_not_isBareZero {text : String} (h : ¬ IsBareZero text.toList) :
    text ≠ "0" ∧ text ≠ "-0" := by
  constructor
  · rintro rfl
    exact h (.inl (by decide))
  · rintro rfl
    exact h (.inr (by decide))

section

variable {apart : Token → Token → Prop} {ts : List Token} {s : List Char}

theorem Spaced.mem {c : Char} (h : Spaced apart ts s) (hc : c ∈ s) :
    isBlank c = true ∨ ∃ u ∈ ts, c ∈ u.text.toList := by
  induction h with
  | nil hg => exact .inl (hg c hc)
  | @cons g s t ts hg _ _ ih =>
      rcases List.mem_append.mp hc with hc | hc
      · exact .inl (hg c hc)
      · rcases List.mem_append.mp hc with hc | hc
        · exact .inr ⟨t, by simp, hc⟩
        · exact (ih hc).imp_right fun ⟨u, hu, hcu⟩ => ⟨u, List.mem_cons_of_mem _ hu, hcu⟩

/-- A spaced text begins with a blank or with its first token. -/
theorem Spaced.head {c : Char} (h : Spaced apart ts s) (hr : Readable ts) (hc : c ∈ s.head?) :
    isBlank c = true ∨ ∃ u ∈ ts.head?, c ∈ u.text.toList.head? := by
  cases h with
  | nil hg => exact .inl (hg c (List.mem_of_mem_head? hc))
  | @cons g s t ts hg _ _ =>
      cases g with
      | cons d g =>
          obtain rfl : d = c := by simpa using hc
          exact .inl (hg d (by simp))
      | nil =>
          have hne := (hr.spells t (by simp)).ne_nil
          rw [List.nil_append, List.head?_append_of_ne_nil _ hne] at hc
          exact .inr ⟨t, rfl, hc⟩

theorem Spaced.noPart (h : Spaced apart ts s) (hr : Readable ts) : NoPart s := by
  intro c hc
  rcases h.head hr hc with hb | ⟨u, hu, hcu⟩
  · refine ⟨?_, ?_, ?_⟩ <;> rintro rfl <;> exact absurd hb (by decide)
  · exact (hr.spells u (List.mem_of_mem_head? hu)).noPart c hcu

/-- A digit at the head of a spaced text belongs to a number. -/
theorem Spaced.number_of_isDigit {c : Char} (h : Spaced apart ts s) (hr : Readable ts)
    (hc : c ∈ s.head?) (hd : c.isDigit = true) :
    ∃ u ∈ ts.head?, u.kind = .number ∧ c ∈ u.text.toList.head? := by
  rcases h.head hr hc with hb | ⟨u, hu, hcu⟩
  · exact absurd hb (not_isBlank_of_isDigit hd)
  · have hk := (hr.spells u (List.mem_of_mem_head? hu)).ofLeadChar_head c hcu
    rw [Kind.ofLeadChar_of_isDigit hd] at hk
    exact ⟨u, hu, hk.symm, hcu⟩

/-- The text behind a token does not belong to it, unless it runs together with the next. -/
theorem Spaced.stops {t : Token} (h : Spaced apart ts s) (hr : Readable (t :: ts))
    (hf : ∀ u ∈ ts.head?, Fuses t u → ∃ c ∈ s.head?, isBlank c = true) :
    t.kind.Stops t.text.toList s := by
  cases hk : t.kind with
  | whitespace => exact absurd hk (hr.solid t (by simp))
  | string =>
      intro hforced hq
      rcases h.mem hq with hb | ⟨u, hu, hqu⟩
      · exact absurd hb (by decide)
      · exact (List.pairwise_cons.mp hr.forced).1 u hu hforced hqu
  | number =>
      by_cases hz : IsBareZero t.text.toList
      · exact .inl hz
      · refine .inr fun c hc => Bool.eq_false_iff.mpr fun hd => ?_
        obtain ⟨u, hu, hku, hcu⟩ := h.number_of_isDigit hr.tail hc hd
        have hne := ne_zero_of_not_isBareZero hz
        obtain ⟨c', hc', hb⟩ := hf u hu ⟨hk, hne.1, hne.2, hku, c, hcu, hd⟩
        obtain rfl : c' = c := Option.some.inj (hc'.symm.trans hc)
        exact not_isBlank_of_isDigit hd hb
  | _ => trivial

/-- A token is read off the head of the text, unless it runs together with the next. -/
theorem Spaced.read?_append {t : Token} (h : Spaced apart ts s) (hr : Readable (t :: ts))
    (hf : ∀ u ∈ ts.head?, Fuses t u → ∃ c ∈ s.head?, isBlank c = true) :
    read? (t.text.toList ++ s) = some (t.text.toList, s) :=
  Lexeme.read?_append (hr.spells t (by simp)) (h.stops hr hf) fun _ => h.noPart hr.tail

end

/-! ## Reading a spaced text -/

/-- A token that spells its kind is its text as classified. -/
theorem ofChars_toList_text {t : Token} (h : t.kind.Spells t.text.toList) :
    ofChars t.text.toList = t := by
  rw [ofChars, h.ofChars_eq, String.ofList_toList]

theorem Filter.keeps_dropWhitespace {k : Kind} :
    ({ dropWhitespace := true } : Filter).keeps k = true ↔ k ≠ .whitespace := by
  cases k <;> decide

/-- The tokens of a text, but for its blanks. -/
def visible (s : List Char) : List Token :=
  (scan s).filter fun t => ({ dropWhitespace := true } : Filter).keeps t.kind

theorem tokenize_dropWhitespace (text : String) :
    tokenize text { dropWhitespace := true } = visible text.toList := rfl

theorem structural_eq_filter (text : String) :
    structural text = (visible text.toList).filter fun t => Filter.structural.keeps t.kind := by
  rw [structural, tokenize, visible, List.filter_filter]
  congr 1
  funext t
  cases t.kind <;> rfl

theorem visible_of_read?_eq_some {s m r : List Char} (h : read? s = some (m, r))
    (hk : Kind.ofChars m ≠ .whitespace) : visible s = ofChars m :: visible r := by
  have hkeep := Filter.keeps_dropWhitespace.mpr hk
  rw [visible, scan_of_read?_eq_some h, List.filter_cons, kind_ofChars, if_pos hkeep, visible]

theorem Readable.filter_eq {ts : List Token} (h : Readable ts) :
    (ts.filter fun t => ({ dropWhitespace := true } : Filter).keeps t.kind) = ts :=
  List.filter_eq_self.mpr fun t ht => Filter.keeps_dropWhitespace.mpr (h.solid t ht)

theorem visible_dropWhile (s : List Char) : visible s = visible (s.dropWhile isBlank) := by
  have happ := List.takeWhile_append_dropWhile (p := isBlank) (l := s)
  cases ht : s.takeWhile isBlank with
  | nil => rw [ht, List.nil_append] at happ; rw [happ]
  | cons c b =>
      have hspells : Kind.whitespace.Spells (c :: b) := by
        refine ⟨by simp, fun d hd => ?_⟩
        rw [← ht] at hd
        exact List.all_eq_true.mp List.all_takeWhile d hd
      have hread := read?_blanks_append hspells (head_dropWhile (s := s))
      rw [← ht, happ, ht] at hread
      rw [visible, scan_of_read?_eq_some hread, List.filter_cons, kind_ofChars,
        hspells.ofChars_eq]
      rfl

theorem visible_blank_append {g : List Char} (hg : Blank g) (s : List Char) :
    visible (g ++ s) = visible s := by
  rw [visible_dropWhile, List.dropWhile_append_of_pos hg, ← visible_dropWhile]

/-- A token is the first one read, unless it runs together with the next. -/
theorem Spaced.visible_append {apart : Token → Token → Prop} {t : Token} {ts : List Token}
    {s : List Char} (h : Spaced apart ts s) (hr : Readable (t :: ts))
    (hf : ∀ u ∈ ts.head?, Fuses t u → ∃ c ∈ s.head?, isBlank c = true) :
    visible (t.text.toList ++ s) = t :: visible s := by
  have hk := hr.spells t (by simp)
  have hsolid : Kind.ofChars t.text.toList ≠ .whitespace := by
    rw [hk.ofChars_eq]
    exact hr.solid t (by simp)
  rw [visible_of_read?_eq_some (h.read?_append hr hf) hsolid, ofChars_toList_text hk]

/-- Readable tokens are read back from every text that spells them, if numbers that would
run together are kept apart. -/
theorem Spaced.visible_eq {ts : List Token} {s : List Char} (h : Spaced Fuses ts s)
    (hr : Readable ts) : visible s = ts := by
  induction h with
  | @nil g hg =>
      rw [← List.append_nil g, visible_blank_append hg, visible, scan_nil]
      rfl
  | @cons g s t ts hg hap hs ih =>
      rw [visible_blank_append hg, hs.visible_append hr hap, ih hr.tail]

end JsonText.Token
