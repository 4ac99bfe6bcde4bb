-- SUMMARY: Every token belongs to the language of its kind, and no run of text is split in two.
import JsonText.Proofs.Token.Cutting
import JsonText.Proofs.Token.Language
import JsonText.Proofs.Token.Spaced

/-!
# Token streams

The kind of a token is read off its first character. What the scanner cuts off
is always a whole member of the language of that kind, so the first character
never labels a fragment. A lexeme stands between any two gaps, and a run of
blanks goes on until another character comes.
-/

namespace JsonText.Token

open Lexeme

/-! ## Kinds -/

/-- A token that is not unknown is its text as classified, and a spelling of its kind. -/
theorem Cut.spells {s : List Char} {ts : List Token} (h : Cut s ts) :
    ∀ t ∈ ts, t.kind ≠ .unknown → t = classify t.text ∧ t.kind.Spells t.text.toList := by
  refine h.forall_mem ?_ ?_
  · intro g _ hk
    exact absurd (kind_unknown g) hk
  · intro m r hm _
    refine ⟨(classify_ofList m).symm, ?_⟩
    rw [kind_ofChars, toList_text_ofChars]
    exact (spells_ofChars_of_read? hm).1

/-! ## Neighbours -/

/-- The tokens are neither two unknown runs nor two runs of blanks. -/
def Alternate (t u : Token) : Prop :=
  ¬ (t.kind = .unknown ∧ u.kind = .unknown) ∧ ¬ (t.kind = .whitespace ∧ u.kind = .whitespace)

/-- A text begins as its first token does. -/
theorem Cut.head?_eq {s : List Char} {t : Token} {ts : List Token} (h : Cut s (t :: ts)) :
    s.head? = t.text.toList.head? := by
  rw [← h.flatMap_eq, List.flatMap_cons]
  exact List.head?_append_of_ne_nil _ (h.text_ne_empty t List.mem_cons_self)

/-- No blank comes behind a run of blanks. -/
theorem Cut.alternate_ofChars {m r : List Char} {ts : List Token} (hr : Cut r ts)
    (hm : read? (m ++ r) = some (m, r)) : ∀ u ∈ ts.head?, Alternate (ofChars m) u := by
  intro u hu
  obtain ⟨us, rfl⟩ := List.head?_eq_some_iff.mp hu
  refine ⟨fun h => kind_ne_unknown_of_read? hm h.1, fun h => ?_⟩
  have hstops := (spells_ofChars_of_read? hm).2
  rw [← kind_ofChars, h.1] at hstops
  obtain ⟨hne, hblank⟩ : Kind.whitespace.Spells u.text.toList := by
    have hu := (hr.spells u List.mem_cons_self (by rw [h.2]; decide)).2
    rwa [h.2] at hu
  obtain ⟨c, b, hc⟩ := List.exists_cons_of_ne_nil hne
  have hhead := hr.head?_eq
  rw [hc] at hhead hblank
  have hstop := hstops c hhead
  rw [hblank c List.mem_cons_self] at hstop
  exact absurd hstop (by decide)

theorem Cut.isChain {s : List Char} {ts : List Token} (h : Cut s ts) :
    ts.IsChain Alternate := by
  induction h with
  | @gap g _ =>
      cases g with
      | nil => exact .nil
      | cons c g => exact List.isChain_singleton _
  | @lexeme g m r ts _ hm hr ih =>
      have hts : (ofChars m :: ts).IsChain Alternate :=
        List.isChain_cons.mpr ⟨hr.alternate_ofChars hm, ih⟩
      cases g with
      | nil => exact hts
      | cons c g =>
          refine List.isChain_cons_cons.mpr ⟨⟨fun h => ?_, fun h => ?_⟩, hts⟩
          · exact kind_ne_unknown_of_read? hm h.2
          · rw [kind_unknown] at h
            exact absurd h.1 (by decide)

/-- No token of a text is empty. A token that is not unknown has the kind that its first
character announces, and its text as a whole belongs to the language of that kind. Neither two
unknown tokens nor two runs of blanks stand side by side. -/
theorem tokenize_normalForm (text : String) :
    (∀ t ∈ tokenize text, t.text ≠ "" ∧
        (t.kind ≠ .unknown → t = classify t.text ∧ t.kind.Language t.text.toList)) ∧
      (tokenize text).IsChain Alternate := by
  rw [tokenize_nothing]
  have hcut := cut_scan text.toList
  refine ⟨fun t ht => ⟨fun hempty => ?_, fun hk => ?_⟩, hcut.isChain⟩
  · exact hcut.text_ne_empty t ht (by rw [hempty]; rfl)
  · obtain ⟨hclassify, hspells⟩ := hcut.spells t ht hk
    exact ⟨hclassify, hspells.language⟩

/-- The beginning of a word, a zero before another number, and a string for whose close only
an escaped quote is left. -/
theorem tokenize_normalForm_fragments :
    tokenize "tru-01 \"\\\"" =
        [⟨.unknown, "tru"⟩, ⟨.number, "-0"⟩, ⟨.number, "1"⟩, ⟨.whitespace, " "⟩,
          ⟨.string, "\"\\\""⟩] ∧
      Kind.number.Language "-0".toList ∧ Kind.string.Language "\"\\\"".toList := by
  have hsearch : search "tru-01 \"\\\"".toList =
      ⟨"tru".toList, some ("-0".toList, "1 \"\\\"".toList)⟩ := by decide
  have hone : read? "1 \"\\\"".toList = some (['1'], " \"\\\"".toList) := by decide
  have hblank : read? " \"\\\"".toList = some ([' '], "\"\\\"".toList) := by decide
  have hstring : read? "\"\\\"".toList = some ("\"\\\"".toList, []) := by decide
  have htokens : tokenize "tru-01 \"\\\"" =
      [⟨.unknown, "tru"⟩, ⟨.number, "-0"⟩, ⟨.number, "1"⟩, ⟨.whitespace, " "⟩,
        ⟨.string, "\"\\\""⟩] := by
    rw [tokenize_nothing, scan_eq, hsearch]
    dsimp only
    rw [scan_of_read?_eq_some hone, scan_of_read?_eq_some hblank,
      scan_of_read?_eq_some hstring, scan_nil]
    decide
  have hall := (tokenize_normalForm "tru-01 \"\\\"").1
  rw [htokens] at hall
  refine ⟨htokens, ?_, ?_⟩
  · exact ((hall ⟨.number, "-0"⟩ (by decide)).2 (by decide)).2
  · exact ((hall ⟨.string, "\"\\\""⟩ (by decide)).2 (by decide)).2

end JsonText.Token
