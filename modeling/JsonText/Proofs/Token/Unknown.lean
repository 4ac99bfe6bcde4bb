-- SUMMARY: Nothing that could be read is left to an unknown token.
import Mathlib.Data.List.Infix
import JsonText.Proofs.Token.Boundary
import JsonText.Proofs.Token.Stream

/-!
# Unknown text

Layouts drop unknown tokens, so it matters what these can hold. The search that
passes a gap tries every position of it, with all of the text behind it in view:
no member of any language begins there. That rules out blanks, punctuation,
digits and words, and leaves room for one double quote, the last of the text.
-/

namespace JsonText

open Token (Kind concat)

namespace Lexeme

/-! ## Text in which nothing is read -/

variable {g r : List Char}

theorem Free.read?_eq_none {a b : List Char} (h : Free g r) (hg : g = a ++ b) (hb : b ≠ []) :
    read? (b ++ r) = none := by
  induction a generalizing g with
  | nil =>
      obtain ⟨c, b, rfl⟩ := List.exists_cons_of_ne_nil hb
      obtain rfl : g = c :: b := hg
      exact h.1
  | cons c a ih =>
      subst hg
      exact ih h.2 rfl

/-- No member of any language begins in the text. -/
theorem Free.not_prefix {a b m : List Char} {k : Kind} (h : Free g r) (hg : g = a ++ b)
    (hb : b ≠ []) (hm : k.Language m) : ¬ m <+: b ++ r :=
  read?_eq_none_iff.mp (h.read?_eq_none hg hb) k m hm

theorem Free.not_infix {w : List Char} {k : Kind} (h : Free g r) (hw : k.Language w)
    (hne : w ≠ []) : ¬ w <:+: g := by
  rintro ⟨a, b, hg⟩
  rw [List.append_assoc] at hg
  refine h.not_prefix hg.symm (by simp [hne]) hw ?_
  exact ⟨b ++ r, (List.append_assoc w b r).symm⟩

theorem language_of_isPunctuation {c : Char} (hc : isPunctuation c = true) :
    ∃ k : Kind, k.Language [c] := by
  simp only [isPunctuation, Bool.or_eq_true, beq_iff_eq] at hc
  rcases hc with ((((rfl | rfl) | rfl) | rfl) | rfl) | rfl
  · exact ⟨.braceOpen, rfl⟩
  · exact ⟨.braceClose, rfl⟩
  · exact ⟨.bracketOpen, rfl⟩
  · exact ⟨.bracketClose, rfl⟩
  · exact ⟨.comma, rfl⟩
  · exact ⟨.colon, rfl⟩

/-- Neither a blank nor punctuation nor a digit stands in the text. -/
theorem Free.plain {c : Char} (h : Free g r) (hc : c ∈ g) :
    isBlank c = false ∧ isPunctuation c = false ∧ c.isDigit = false := by
  have hnone : ∀ k : Kind, ¬ k.Language [c] := fun k hk =>
    h.not_infix hk (List.cons_ne_nil c []) ((List.singleton_infix_iff c g).mpr hc)
  refine ⟨?_, ?_, ?_⟩
  · refine Bool.eq_false_iff.mpr fun hb => hnone .whitespace ⟨List.cons_ne_nil c [], ?_⟩
    intro d hd
    obtain rfl := List.mem_singleton.mp hd
    exact hb
  · refine Bool.eq_false_iff.mpr fun hp => ?_
    obtain ⟨k, hk⟩ := language_of_isPunctuation hp
    exact hnone k hk
  · exact Bool.eq_false_iff.mpr fun hd => hnone .number (isNumber_digit hd)

/-- Behind a quote in the text no other quote comes. -/
theorem Free.quote_notMem {a b : List Char} (h : Free g r) (hg : g = a ++ '"' :: b) :
    '"' ∉ b ++ r := by
  have hread := h.read?_eq_none hg (List.cons_ne_nil _ _)
  rw [List.cons_append, read?_eq_quoted?] at hread
  exact quoted?_eq_none_iff.mp hread

/-- A quote in the text is its only one. -/
theorem Free.count_quote_eq_one (h : Free g r) (hq : '"' ∈ g) : g.count '"' = 1 ∧ '"' ∉ r := by
  obtain ⟨a, b, rfl, ha⟩ := List.eq_append_cons_of_mem hq
  have hnot := h.quote_notMem rfl
  rw [List.mem_append, not_or] at hnot
  refine ⟨?_, hnot.2⟩
  rw [List.count_append, List.count_cons_self, List.count_eq_zero.mpr ha,
    List.count_eq_zero.mpr hnot.1]

end Lexeme

namespace Token

open Lexeme

/-! ## Gaps in a stream -/

theorem Cut.behind {s : List Char} {ts us : List Token} (h : Cut s (ts ++ us)) :
    Cut (concat us).toList us := by
  obtain ⟨p, q, -, -, hq⟩ := h.split
  rwa [toList_concat, hq.flatMap_eq]

/-- The text `g` between the tokens `ts` and `us` is a gap. -/
structure IsGap (ts : List Token) (g : List Char) (us : List Token) : Prop where
  /-- Nothing is read at any position of the gap. -/
  unread : ∀ a b, g = a ++ b → b ≠ [] → read? (b ++ (concat us).toList) = none
  /-- No member of any language begins at any position of the gap. -/
  no_member : ∀ a b, g = a ++ b → b ≠ [] →
    ∀ (k : Kind) m, k.Language m → ¬ m <+: b ++ (concat us).toList
  /-- The token before the gap, if there is one, is a lexeme that ends where the gap begins. -/
  lexeme_before : ∀ u ∈ ts.getLast?, read? (u.text.toList ++ (g ++ (concat us).toList)) =
    some (u.text.toList, g ++ (concat us).toList)
  /-- The token behind the gap, if there is one, is a lexeme that begins where the gap ends. -/
  lexeme_behind : ∀ u ∈ us.head?,
    read? (concat us).toList = some (u.text.toList, (concat us.tail).toList)

theorem Cut.isGap {s : List Char} {ts us : List Token} {t : Token} (h : Cut s (ts ++ t :: us))
    (hk : t.kind = .unknown) : IsGap ts t.text.toList us := by
  have hfree := h.behind.free hk
  obtain ⟨-, hchain, hlast⟩ := List.isChain_append.mp h.isChain
  rw [← toList_concat] at hfree
  refine ⟨fun a b hg hb => hfree.read?_eq_none hg hb,
    fun a b hg hb k m hm => hfree.not_prefix hg hb hm, ?_, ?_⟩
  · intro u hu
    have hku : u.kind ≠ .unknown := fun hku => (hlast u hu t rfl).1 ⟨hku, hk⟩
    obtain ⟨vs, rfl⟩ := List.getLast?_eq_some_iff.mp hu
    rw [List.append_assoc, List.singleton_append] at h
    have hread := h.behind.read?_eq hku
    rwa [concat_cons, concat_cons, String.toList_append, String.toList_append,
      ← toList_concat, concat_cons, String.toList_append] at hread
  · intro u hu
    have hku : u.kind ≠ .unknown := fun hku =>
      ((List.isChain_cons.mp hchain).1 u hu).1 ⟨hk, hku⟩
    obtain ⟨vs, rfl⟩ := List.head?_eq_some_iff.mp hu
    rw [List.append_cons] at h
    have hread := h.behind.read?_eq hku
    rwa [← toList_concat] at hread

/-! ## The quotes of all gaps -/

theorem Cut.count_quote_unknown_le {s : List Char} {ts : List Token} (h : Cut s ts) :
    (concat (ts.filter (·.kind = .unknown))).toList.count '"' ≤ 1 := by
  have hgap : ∀ g, (ofGap g).filter (·.kind = .unknown) = ofGap g := fun g =>
    List.filter_eq_self.mpr fun t ht => decide_eq_true (kind_of_mem_ofGap ht)
  have hcount : ∀ g, (concat (ofGap g)).toList.count '"' = g.count '"' := fun g => by
    rw [toList_concat, flatMap_ofGap]
  induction h with
  | @gap g hg =>
      rw [hgap, hcount]
      by_cases hq : '"' ∈ g
      · exact (hg.count_quote_eq_one hq).1.le
      · exact (List.count_eq_zero.mpr hq).le.trans (Nat.zero_le 1)
  | @lexeme g m r ts hg hm hr ih =>
      have hlex : (ofChars m :: ts).filter (·.kind = .unknown) = ts.filter (·.kind = .unknown) :=
        List.filter_cons_of_neg (mt of_decide_eq_true (kind_ne_unknown_of_read? hm))
      rw [List.filter_append, hgap, hlex, concat_append, String.toList_append, List.count_append,
        hcount]
      by_cases hq : '"' ∈ g
      · -- The quote of the first gap is the last one of the text.
        obtain ⟨hone, hnot⟩ := hg.count_quote_eq_one hq
        have hnone : '"' ∉ (concat (ts.filter (·.kind = .unknown))).toList := by
          intro hmem
          rw [toList_concat] at hmem
          refine hnot (List.mem_append_right m ?_)
          rw [← hr.flatMap_eq]
          exact (List.filter_sublist.flatMap _).subset hmem
        rw [hone, List.count_eq_zero.mpr hnone]
      · rw [List.count_eq_zero.mpr hq, Nat.zero_add]
        exact ih

/-- An unknown token of a text is a gap between lexemes in which nothing can be read. It holds
no blank, no punctuation, no digit and none of the three words, and a double quote in it is the
last one of the text. All unknown tokens together hold at most one double quote. -/
theorem tokenize_unknown (text : String) :
    (∀ ts t us, tokenize text = ts ++ t :: us → t.kind = .unknown →
        text = concat ts ++ (t.text ++ concat us) ∧ IsGap ts t.text.toList us ∧
          (∀ c ∈ t.text.toList,
            isBlank c = false ∧ isPunctuation c = false ∧ c.isDigit = false) ∧
          (∀ w ∈ ["true", "false", "null"], ¬ w.toList <:+: t.text.toList) ∧
          ∀ a b, t.text.toList = a ++ '"' :: b → '"' ∉ b ++ (concat us).toList) ∧
      (concat ((tokenize text).filter (·.kind = .unknown))).toList.count '"' ≤ 1 := by
  rw [tokenize_nothing]
  have hcut := cut_scan text.toList
  refine ⟨fun ts t us hts hk => ?_, hcut.count_quote_unknown_le⟩
  rw [hts] at hcut
  have hfree := hcut.behind.free hk
  rw [← toList_concat] at hfree
  have htext : concat (scan text.toList) = text := by rw [concat_scan, String.ofList_toList]
  rw [hts, concat_append, concat_cons] at htext
  refine ⟨htext.symm, hcut.isGap hk, fun c hc => hfree.plain hc, ?_,
    fun a b hg => hfree.quote_notMem hg⟩
  simp only [List.forall_mem_cons]
  exact ⟨hfree.not_infix (k := .trueWord) rfl (by decide),
    hfree.not_infix (k := .falseWord) rfl (by decide),
    hfree.not_infix (k := .nullWord) rfl (by decide), List.forall_mem_nil _⟩

/-- A minus and a quote between a string and a number: the quote before the number opens no
string, since no other quote comes behind it. -/
theorem tokenize_unknown_quote :
    tokenize "\"a\"-\"1" = [⟨.string, "\"a\""⟩, ⟨.unknown, "-\""⟩, ⟨.number, "1"⟩] ∧
      IsGap [⟨.string, "\"a\""⟩] "-\"".toList [⟨.number, "1"⟩] := by
  have hstring : read? "\"a\"-\"1".toList = some ("\"a\"".toList, "-\"1".toList) := by decide
  have hsearch : search "-\"1".toList = ⟨"-\"".toList, some (['1'], [])⟩ := by decide
  have htokens : tokenize "\"a\"-\"1" =
      [⟨.string, "\"a\""⟩, ⟨.unknown, "-\""⟩, ⟨.number, "1"⟩] := by
    rw [tokenize_nothing, scan_of_read?_eq_some hstring, scan_eq, hsearch]
    dsimp only
    rw [scan_nil]
    decide
  exact ⟨htokens, ((tokenize_unknown "\"a\"-\"1").1
    [⟨.string, "\"a\""⟩] ⟨.unknown, "-\""⟩ [⟨.number, "1"⟩] htokens rfl).2.1⟩

end Token

end JsonText
