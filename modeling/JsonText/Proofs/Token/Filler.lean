-- SUMMARY: Characters that keep the text behind them from the tokens before them.
import JsonText.Proofs.Token.Spaced
import JsonText.Proofs.Token.Unknown

/-!
# Filler

A filler is a blank, or a character of which no lexeme but a string makes use.
What stands before a filler at a token boundary is cut up as it would be without
the filler, whatever the text behind is. The one exception is an open quote: it
looks for its close in all of the text, and a filler does not stop it.
-/

namespace JsonText

open Token (Kind)

/-! ## Fillers -/

/-- A blank, or a character that is neither a letter nor a digit, nor any of those that
punctuation, strings and numbers are made of. -/
def Lexeme.IsFiller (c : Char) : Prop :=
  isBlank c = true ∨
    c.isAlpha = false ∧ c.isDigit = false ∧
      c ∉ ['{', '}', '[', ']', ',', ':', '"', '\\', '-', '+', '.']

instance : DecidablePred Lexeme.IsFiller := fun c =>
  inferInstanceAs (Decidable (Lexeme.isBlank c = true ∨
    c.isAlpha = false ∧ c.isDigit = false ∧
      c ∉ ['{', '}', '[', ']', ',', ':', '"', '\\', '-', '+', '.']))

variable {c : Char}

theorem Lexeme.IsFiller.notMem {l : List Char} (h : IsFiller c)
    (hl : (l.any fun d => decide (IsFiller d)) = false) : c ∉ l := fun hmem =>
  List.any_eq_false.mp hl c hmem (decide_eq_true h)

theorem Lexeme.IsFiller.ne_quote (h : IsFiller c) : c ≠ '"' := by
  rintro rfl
  exact absurd h (by decide)

theorem Lexeme.IsFiller.not_isNumeral (h : IsFiller c) : ¬ IsNumeral c := by
  rintro (hd | hc)
  · rcases h with hb | ⟨-, hn, -⟩
    · exact Token.not_isBlank_of_isDigit hd hb
    · rw [hd] at hn
      exact absurd hn (by decide)
  · exact h.notMem (by decide) hc

/-- A filler that is not blank announces nothing. -/
theorem Lexeme.IsFiller.ofLeadChar_eq (h : IsFiller c) (hb : isBlank c ≠ true) :
    Kind.ofLeadChar c = .unknown := by
  obtain ⟨ha, hd, hn⟩ := h.resolve_left hb
  unfold Kind.ofLeadChar
  split <;> simp_all [isBlank]

/-- Of all lexemes only strings and runs of blanks may hold a filler. -/
theorem Token.Kind.Spells.notMem_of_isFiller {k : Kind} {m : List Char} (h : k.Spells m)
    (hw : k ≠ .whitespace) (hs : k ≠ .string) (hc : Lexeme.IsFiller c) : c ∉ m := by
  cases k with
  | unknown => exact absurd h id
  | whitespace => exact absurd rfl hw
  | string => exact absurd rfl hs
  | number => exact fun hmem => hc.not_isNumeral (Lexeme.IsNumber.isNumeral_of_mem h hmem)
  | _ =>
      rw [show m = _ from h]
      exact hc.notMem (by decide)

/-- Of all lexemes only strings hold quotes. -/
theorem Token.Kind.Spells.eq_string {k : Kind} {m : List Char} (h : k.Spells m)
    (hq : '"' ∈ m) : k = .string := by
  cases k with
  | unknown => exact absurd h id
  | whitespace => exact absurd (h.2 '"' hq) (by decide)
  | string => rfl
  | number =>
      rcases Lexeme.IsNumber.isNumeral_of_mem h hq with hd | hc
      · exact absurd hd (by decide)
      · exact absurd hc (by decide)
  | _ =>
      rw [show m = _ from h] at hq
      exact absurd hq (by decide)

namespace Lexeme

/-! ## Reading in front of a filler -/

/-- Nothing is read where a character announces nothing. -/
theorem read?_eq_none_of_ofLeadChar (h : Kind.ofLeadChar c = .unknown) (s : List Char) :
    read? (c :: s) = none := by
  cases hread : read? (c :: s) with
  | none => rfl
  | some p =>
      obtain ⟨m, r⟩ := p
      obtain ⟨k, hspells, -⟩ := spells_of_read? hread
      obtain ⟨d, m, rfl⟩ := List.exists_cons_of_ne_nil hspells.ne_nil
      obtain rfl : d = c := (List.cons.inj (cuts_of_read? hread).1).1
      obtain rfl : k = .unknown := (hspells.ofLeadChar_head d rfl).symm.trans h
      exact absurd hspells id

/-- A prefix that does not hold `c` ends before `c`. -/
theorem prefix_of_notMem {m a z : List Char} (h : m <+: a ++ c :: z) (hc : c ∉ m) :
    m <+: a := by
  have hlong : a ++ [c] <+: a ++ c :: z := ⟨z, by simp⟩
  rcases List.prefix_or_prefix_of_prefix h hlong with hm | hm
  · rcases List.prefix_concat_iff.mp hm with rfl | hm
    · exact absurd (by simp) hc
    · exact hm
  · exact absurd (hm.subset (by simp)) hc

variable {a q z : List Char}

theorem IsFiller.quote_mem_append_iff (hc : IsFiller c) :
    '"' ∈ a ++ c :: z ↔ '"' ∈ a ∨ '"' ∈ z := by
  rw [List.mem_append, List.mem_cons, or_iff_right hc.ne_quote.symm]

/-- In front of a filler a number is as long as it was without it. -/
theorem number?_append_filler {m : List Char} (h : number? (m ++ (a ++ q)) = some (m, a ++ q))
    (hc : IsFiller c) : number? (m ++ (a ++ c :: z)) = some (m, a ++ c :: z) := by
  obtain ⟨-, hm, hlongest⟩ := number?_eq_some_iff.mp h
  refine number?_eq_some_iff.mpr ⟨rfl, hm, fun n hn hp => hlongest n hn ?_⟩
  rw [← List.append_assoc] at hp ⊢
  have hshort := prefix_of_notMem hp fun hmem => hc.not_isNumeral (hn.isNumeral_of_mem hmem)
  exact hshort.trans (List.prefix_append _ q)

/-- A lexeme other than a run of blanks is read in front of a filler as it was without it, if it
is no forced string or no quote comes behind the filler. -/
theorem read?_append_filler {m : List Char} (h : read? (m ++ (a ++ q)) = some (m, a ++ q))
    (hw : Kind.ofChars m ≠ .whitespace) (hc : IsFiller c) (hz : IsForced m → '"' ∉ z) :
    read? (m ++ (a ++ c :: z)) = some (m, a ++ c :: z) := by
  obtain ⟨k, hspells, hstops⟩ := spells_of_read? h
  rw [hspells.ofChars_eq] at hw
  cases k with
  | whitespace => exact absurd rfl hw
  | string =>
      refine read?_append hspells (fun hf hq => ?_) nofun
      rcases hc.quote_mem_append_iff.mp hq with hq | hq
      · exact hstops hf (List.mem_append_left q hq)
      · exact hz hf hq
  | number =>
      rw [IsNumber.read?_append hspells] at h ⊢
      exact number?_append_filler h hc
  | _ => exact read?_append hspells trivial nofun

/-- Where nothing is read, nothing is read in front of a filler either, if a quote there has no
quote behind the filler. -/
theorem read?_cons_append_filler {d : Char} (h : read? (d :: (a ++ q)) = none)
    (hc : IsFiller c) (hz : d = '"' → '"' ∉ z) : read? (d :: (a ++ c :: z)) = none := by
  have hnone := read?_eq_none_iff.mp h
  rw [read?_eq_none_iff]
  intro k m hm hp
  have hshort (hmem : c ∉ m) : m <+: d :: (a ++ q) :=
    (prefix_of_notMem (a := d :: a) hp hmem).trans (List.prefix_append (d :: a) q)
  cases k with
  | whitespace =>
      obtain ⟨b, m, rfl⟩ := List.exists_cons_of_ne_nil hm.1
      obtain rfl : b = d := (List.cons_prefix_cons.mp hp).1
      have hb : Kind.whitespace.Language [b] :=
        ⟨List.cons_ne_nil b [], fun e he => hm.2 e (by simp_all)⟩
      exact hnone .whitespace [b] hb ⟨a ++ q, rfl⟩
  | string =>
      obtain ⟨b, rfl, -⟩ := hm
      rw [List.cons_append] at hp
      obtain ⟨rfl, hp'⟩ := List.cons_prefix_cons.mp hp
      rw [read?_eq_quoted?, quoted?_eq_none_iff, List.mem_append, not_or] at h
      have hq : '"' ∈ a ++ c :: z := hp'.subset (List.mem_append_right b List.mem_cons_self)
      rcases hc.quote_mem_append_iff.mp hq with hq | hq
      · exact h.1 hq
      · exact hz rfl hq
  | _ => exact hnone _ m hm (hshort ((hm.spells nofun).notMem_of_isFiller nofun nofun hc))

/-- A gap remains one in front of a filler, if a quote in it has no quote behind the filler. -/
theorem Free.append_filler {g : List Char} (h : Free g (a ++ q)) (hc : IsFiller c)
    (hz : '"' ∈ g → '"' ∉ z) : Free g (a ++ c :: z) := by
  induction g with
  | nil => trivial
  | cons d g ih =>
      have hread := h.1
      rw [← List.append_assoc] at hread
      refine ⟨?_, ih h.2 fun hq => hz (List.mem_cons_of_mem d hq)⟩
      rw [← List.append_assoc]
      exact read?_cons_append_filler hread hc fun hd => hz (hd ▸ List.mem_cons_self)

end Lexeme

namespace Token

open Lexeme

/-! ## Tokens with structure -/

/-- The tokens of a text, but for its blanks and what is unknown. -/
def kept (s : List Char) : List Token :=
  (scan s).filter fun t => Filter.structural.keeps t.kind

theorem structural_eq_kept (text : String) : structural text = kept text.toList := rfl

theorem kept_eq_filter_visible (s : List Char) :
    kept s = (visible s).filter fun t => Filter.structural.keeps t.kind := by
  have h := structural_eq_filter (String.ofList s)
  rwa [structural_eq_kept, String.toList_ofList] at h

theorem kept_blank_append {g : List Char} (hg : Blank g) (s : List Char) :
    kept (g ++ s) = kept s := by
  rw [kept_eq_filter_visible, visible_blank_append hg, ← kept_eq_filter_visible]

theorem filter_ofGap (g : List Char) :
    ((ofGap g).filter fun t => Filter.structural.keeps t.kind) = [] := by
  cases g <;> rfl

theorem kept_free_append {g s : List Char} (h : Free g s) : kept (g ++ s) = kept s := by
  rw [kept, scan_eq, search_of_free h, List.filter_append, filter_ofGap, kept, scan_eq s,
    List.filter_append, filter_ofGap]

theorem kept_of_read?_eq_some {s m r : List Char} (h : read? s = some (m, r)) :
    kept s = ([ofChars m].filter fun t => Filter.structural.keeps t.kind) ++ kept r := by
  rw [kept, scan_of_read?_eq_some h, ← List.singleton_append, List.filter_append, ← kept]

variable {c : Char}

theorem kept_filler_cons (hc : IsFiller c) (s : List Char) : kept (c :: s) = kept s := by
  by_cases hb : isBlank c = true
  · refine kept_blank_append (g := [c]) (fun d hd => ?_) s
    obtain rfl := List.mem_singleton.mp hd
    exact hb
  · have hfree : Free [c] s := ⟨read?_eq_none_of_ofLeadChar (hc.ofLeadChar_eq hb) s, trivial⟩
    exact kept_free_append hfree

/-- Fillers at the head of a text leave no tokens. -/
theorem kept_filler_append {w : List Char} (hw : ∀ c ∈ w, IsFiller c) (s : List Char) :
    kept (w ++ s) = kept s := by
  induction w with
  | nil => rfl
  | cons c w ih =>
      rw [List.cons_append, kept_filler_cons (hw c List.mem_cons_self),
        ih fun d hd => hw d (List.mem_cons_of_mem c hd)]

/-! ## Tokens before a filler -/

/-- The token holds a quote that no bare quote closes, so a later quote might close it. -/
def HasOpenQuote (t : Token) : Prop :=
  '"' ∈ t.text.toList ∧ ¬ (t.kind = .string ∧ IsClosed t.text.toList)

theorem hasOpenQuote_unknown {g : List Char} (hq : '"' ∈ g) : HasOpenQuote (unknown g) :=
  ⟨by rwa [toList_text_unknown], fun h => absurd h.1 (by rw [kind_unknown]; decide)⟩

theorem hasOpenQuote_ofChars {m : List Char} (hm : IsForced m) : HasOpenQuote (ofChars m) := by
  refine ⟨?_, fun h => ?_⟩
  · obtain ⟨b, rfl, -⟩ := hm
    rw [toList_text_ofChars]
    exact List.mem_cons_self
  · rw [toList_text_ofChars] at h
    exact not_isForced_of_isClosed h.2 hm

/-- Behind a token with an open quote no quote comes. -/
theorem CutBefore.quote_notMem {q p : List Char} {ts : List Token} (h : CutBefore q p ts) :
    ∀ t ∈ ts, HasOpenQuote t → '"' ∉ q := by
  have hgap : ∀ {g s}, Free g s → ∀ t ∈ ofGap g, HasOpenQuote t → '"' ∉ s := by
    intro g s hg t ht ho
    obtain ⟨-, rfl⟩ := mem_ofGap.mp ht
    have hq := ho.1
    rw [toList_text_unknown] at hq
    exact (hg.count_quote_eq_one hq).2
  induction h with
  | gap hg => exact hgap hg
  | @lexeme g m r ts hg hm _ ih =>
      intro t ht ho hq
      have hq' : '"' ∈ r ++ q := List.mem_append_right r hq
      rcases List.mem_append.mp ht with ht | ht
      · exact hgap hg t ht ho (List.mem_append_right m hq')
      · rcases List.mem_cons.mp ht with rfl | ht
        · obtain ⟨k, hspells, hstops⟩ := spells_of_read? hm
          rw [HasOpenQuote, toList_text_ofChars, kind_ofChars, hspells.ofChars_eq] at ho
          obtain rfl := hspells.eq_string ho.1
          have hforced : IsForced m := hspells.resolve_left fun hclosed => ho.2 ⟨rfl, hclosed⟩
          exact hstops hforced hq'
        · exact ih t ht ho hq

/-- A lexeme at the head of a text is kept in front of a filler as it was without it. -/
theorem kept_lexeme_append {m r q z : List Char} (hm : read? (m ++ (r ++ q)) = some (m, r ++ q))
    (hc : IsFiller c) (hz : IsForced m → '"' ∉ z) :
    kept (m ++ (r ++ c :: z)) =
      ([ofChars m].filter fun t => Filter.structural.keeps t.kind) ++ kept (r ++ c :: z) := by
  by_cases hw : Kind.ofChars m = .whitespace
  · -- The run of blanks may grow by the filler, but none of it is kept.
    have hspells := (spells_ofChars_of_read? hm).1
    rw [hw] at hspells
    rw [kept_blank_append hspells.2, List.filter_singleton, kind_ofChars, hw]
    rfl
  · exact kept_of_read?_eq_some (read?_append_filler hm hw hc hz)

/-- The tokens with structure before a filler are those that stood there without it, and those
behind it are those of the text behind it, if no quote there closes a quote that is open. -/
theorem CutBefore.kept_append {q p z : List Char} {ts : List Token} (h : CutBefore q p ts)
    (hc : IsFiller c) (hz : ∀ t ∈ ts, HasOpenQuote t → '"' ∉ z) :
    kept (p ++ c :: z) = (ts.filter fun t => Filter.structural.keeps t.kind) ++ kept z := by
  have hopen : ∀ {g : List Char}, '"' ∈ g → unknown g ∈ ofGap g := fun hq =>
    mem_ofGap.mpr ⟨List.ne_nil_of_mem hq, rfl⟩
  induction h with
  | @gap g hg =>
      have hfree : Free g (c :: z) := Free.append_filler (a := []) hg hc fun hq =>
        hz _ (hopen hq) (hasOpenQuote_unknown hq)
      rw [kept_free_append hfree, kept_filler_cons hc, filter_ofGap, List.nil_append]
  | @lexeme g m r ts hg hm _ ih =>
      have hfree : Free g (m ++ r ++ c :: z) := by
        rw [← List.append_assoc] at hg
        exact hg.append_filler hc fun hq =>
          hz _ (List.mem_append_left _ (hopen hq)) (hasOpenQuote_unknown hq)
      have hrest := ih fun t ht => hz t (by simp [ht])
      have hlex := kept_lexeme_append hm hc fun hforced =>
        hz _ (by simp) (hasOpenQuote_ofChars hforced)
      calc kept (g ++ (m ++ r) ++ c :: z)
          = kept (m ++ (r ++ c :: z)) := by
            rw [List.append_assoc, List.append_assoc, kept_free_append]
            rwa [← List.append_assoc]
        _ = ([ofChars m].filter fun t => Filter.structural.keeps t.kind) ++
              ((ts.filter fun t => Filter.structural.keeps t.kind) ++ kept z) := by
            rw [hlex, hrest]
        _ = ((ofGap g ++ ofChars m :: ts).filter fun t => Filter.structural.keeps t.kind) ++
              kept z := by
            rw [List.filter_append, filter_ofGap, List.nil_append, List.filter_cons,
              List.filter_cons]
            split <;> rfl

theorem kept_append_blank {s g : List Char} (hg : Blank g) : kept (s ++ g) = kept s := by
  cases g with
  | nil => rw [List.append_nil]
  | cons c g =>
      obtain ⟨hc, hg⟩ := List.forall_mem_cons.mp hg
      have hquote : '"' ∉ g := fun hq => absurd (hg '"' hq) (by decide)
      have hnone : kept g = [] := by
        rw [← List.append_nil g, kept_blank_append hg, kept, scan_nil]
        rfl
      rw [(cut_scan s).cutBefore.kept_append (.inl hc) fun _ _ _ => hquote, hnone,
        List.append_nil, kept]

end Token

end JsonText
