-- SUMMARY: What is inserted between tokens, or joined on behind a blank, does not reach the tokens around it.
import JsonText.Proofs.Layout.Idempotence
import JsonText.Proofs.Token.Filler

/-!
# Locality

A layout does not depend on blanks and foreign characters between the tokens of
a text, be the text well formed or not. Nor does damage spread: two texts with a
blank between them are laid out one after the other, unless a quote of the first
is still open.
-/

namespace JsonText

open Token (Filter concat kept structural tokenize)
open Lexeme

namespace Token

/-! ## Inserting fillers -/

/-- Fillers at a boundary do not reach the tokens on either side of it. -/
theorem CutBefore.kept_insert {q p w : List Char} {ts us : List Token}
    (hp : CutBefore q p ts) (hq : Cut q us) (hw : ∀ c ∈ w, IsFiller c) (hne : w ≠ []) :
    kept (p ++ (w ++ q)) =
      (ts ++ us).filter fun t => Filter.structural.keeps t.kind := by
  obtain ⟨c, w, rfl⟩ := List.exists_cons_of_ne_nil hne
  obtain ⟨hc, hw⟩ := List.forall_mem_cons.mp hw
  have hopen : ∀ t ∈ ts, HasOpenQuote t → '"' ∉ w ++ q := by
    intro t ht ho hmem
    rcases List.mem_append.mp hmem with hmem | hmem
    · exact (hw '"' hmem).ne_quote rfl
    · exact hp.quote_notMem t ht ho hmem
  rw [List.cons_append, hp.kept_append hc hopen, kept_filler_append hw, kept, ← hq.eq_scan,
    List.filter_append]

theorem structural_insert {x w : String} {ts us : List Token} (h : tokenize x = ts ++ us)
    (hw : ∀ c ∈ w.toList, IsFiller c) :
    structural (concat ts ++ w ++ concat us) = structural x := by
  rw [tokenize_nothing] at h
  have hcut := cut_scan x.toList
  rw [h] at hcut
  obtain ⟨p, q, hx, hp, hq⟩ := hcut.split
  rw [structural_eq_kept, structural_eq_kept, String.toList_append, String.toList_append,
    toList_concat, toList_concat, hp.flatMap_eq, hq.flatMap_eq, List.append_assoc]
  by_cases hne : w.toList = []
  · rw [hne, List.nil_append, hx]
  · rw [hp.kept_insert hq hw hne, ← h, kept]

/-! ## Texts whose quotes are closed -/

/-- Every quote stands in a string that ends behind an even number of backslashes. -/
def QuotesClosed (ts : List Token) : Prop :=
  ∀ t ∈ ts, '"' ∈ t.text.toList →
    t.kind = .string ∧ Even (trailingBackslashes t.text.toList.dropLast)

instance : DecidablePred QuotesClosed := fun ts =>
  inferInstanceAs (Decidable (∀ t ∈ ts, '"' ∈ t.text.toList →
    t.kind = .string ∧ Even (trailingBackslashes t.text.toList.dropLast)))

theorem Cut.not_hasOpenQuote {s : List Char} {ts : List Token} (h : Cut s ts)
    (hq : QuotesClosed ts) : ∀ t ∈ ts, ¬ HasOpenQuote t := by
  rintro t ht ⟨hmem, hopen⟩
  obtain ⟨hk, heven⟩ := hq t ht hmem
  have hspells := (h.spells t ht (by rw [hk]; decide)).2
  rw [hk] at hspells
  exact hopen ⟨hk, isClosed_of_even hspells heven⟩

/-- What comes behind a blank does not reach the tokens before it if their quotes are closed. -/
theorem structural_append {x w y : String} (hx : QuotesClosed (tokenize x)) (hne : w ≠ "")
    (hw : Blank w.toList) : structural (x ++ w ++ y) = structural x ++ structural y := by
  rw [tokenize_nothing] at hx
  have hcut := cut_scan x.toList
  have hopen := hcut.not_hasOpenQuote hx
  obtain ⟨c, w', hcw⟩ := List.exists_cons_of_ne_nil (mt String.toList_eq_nil_iff.mp hne)
  rw [hcw] at hw
  obtain ⟨hc, hw'⟩ := List.forall_mem_cons.mp hw
  rw [structural_eq_kept, String.toList_append, String.toList_append, hcw,
    List.append_assoc, List.cons_append,
    hcut.cutBefore.kept_append (.inl hc) fun t ht ho => absurd ho (hopen t ht),
    kept_blank_append hw']
  rfl

end Token

namespace Layout

theorem tokens_insert {x w : String} {ts us : List Token} (hx : x ≠ "")
    (hconcat : concat ts ++ concat us = x) (h : tokenize x = ts ++ us)
    (hw : ∀ c ∈ w.toList, IsFiller c) : tokens (concat ts ++ w ++ concat us) = tokens x := by
  have hne : concat ts ++ w ++ concat us ≠ "" := by
    intro hempty
    rw [String.append_eq_empty_iff, String.append_eq_empty_iff] at hempty
    obtain ⟨⟨hts, -⟩, hus⟩ := hempty
    rw [hts, hus] at hconcat
    exact hx hconcat.symm
  rw [tokens_of_ne_empty hne, tokens_of_ne_empty hx, Token.structural_insert h hw]

end Layout

open Layout

/-- Blanks and foreign characters between two tokens of a text, or at either end of it, change
neither its structural tokens nor its layouts. -/
theorem layout_insert_filler {x w : String} {ts us : List Token} (hx : x ≠ "")
    (h : tokenize x = ts ++ us) (hw : ∀ c ∈ w.toList, IsFiller c) :
    concat ts ++ concat us = x ∧
      structural (concat ts ++ w ++ concat us) = structural x ∧
      format (concat ts ++ w ++ concat us) = format x ∧
      minify (concat ts ++ w ++ concat us) = minify x := by
  have hconcat : concat ts ++ concat us = x := by
    rw [← Token.concat_append, ← h, Token.tokenize_nothing, Token.concat_scan,
      String.ofList_toList]
  have htokens := tokens_insert hx hconcat h hw
  exact ⟨hconcat, Token.structural_insert h hw, format_congr htokens, minify_congr htokens⟩

/-- Fillers between a number and a string for whose close only an escaped quote is left. -/
theorem layout_insert_filler_forced :
    tokenize "\"\\\"1" = [⟨.string, "\"\\\""⟩] ++ [⟨.number, "1"⟩] ∧
      structural "\"\\\" é#1" = structural "\"\\\"1" ∧
      format "\"\\\" é#1" = format "\"\\\"1" ∧
      minify "\"\\\" é#1" = minify "\"\\\"1" := by
  have hstring : read? "\"\\\"1".toList = some ("\"\\\"".toList, ['1']) := by decide
  have hnumber : read? ['1'] = some (['1'], []) := by decide
  have htokens : tokenize "\"\\\"1" = [⟨.string, "\"\\\""⟩] ++ [⟨.number, "1"⟩] := by
    rw [Token.tokenize_nothing, Token.scan_of_read?_eq_some hstring,
      Token.scan_of_read?_eq_some hnumber, Token.scan_nil]
    decide
  have hfiller : (" é#".toList.all fun c => decide (IsFiller c)) = true := by decide
  simp only [List.all_eq_true, decide_eq_true_eq] at hfiller
  have hinsert := layout_insert_filler (by decide) htokens hfiller
  exact ⟨htokens, hinsert.2⟩

/-- The structural tokens of two texts with a blank between them are those of the first and
then those of the second, whatever the second is, if the quotes of the first are closed. If
neither is empty, so it is with the minified layouts. -/
theorem minify_append_blank {x w y : String} (hx : Token.QuotesClosed (tokenize x))
    (hne : w ≠ "") (hw : Blank w.toList) :
    structural (x ++ w ++ y) = structural x ++ structural y ∧
      (x ≠ "" → y ≠ "" → minify (x ++ w ++ y) = minify x ++ minify y) := by
  have hstructural := Token.structural_append (y := y) hx hne hw
  refine ⟨hstructural, fun hxne hyne => ?_⟩
  have hall : x ++ w ++ y ≠ "" := fun hempty => hyne (String.append_eq_empty_iff.mp hempty).2
  rw [minify_eq_concat, minify_eq_concat, minify_eq_concat, tokens_of_ne_empty hall,
    tokens_of_ne_empty hxne, tokens_of_ne_empty hyne, hstructural, Token.concat_append]

/-- A closer that closes nothing, the beginning of a word and a string that ends in an escaped
backslash, with an escaped quote behind the blank. -/
theorem minify_append_blank_damaged :
    tokenize "]tru\"\\\\\"" =
        [⟨.bracketClose, "]"⟩, ⟨.unknown, "tru"⟩, ⟨.string, "\"\\\\\""⟩] ∧
      structural "]tru\"\\\\\"\t\\\"\"" = structural "]tru\"\\\\\"" ++ structural "\\\"\"" ∧
      minify "]tru\"\\\\\"\t\\\"\"" = minify "]tru\"\\\\\"" ++ minify "\\\"\"" := by
  have hclose : read? "]tru\"\\\\\"".toList = some ([']'], "tru\"\\\\\"".toList) := by decide
  have hsearch : search "tru\"\\\\\"".toList = ⟨"tru".toList, some ("\"\\\\\"".toList, [])⟩ := by
    decide
  have htokens : tokenize "]tru\"\\\\\"" =
      [⟨.bracketClose, "]"⟩, ⟨.unknown, "tru"⟩, ⟨.string, "\"\\\\\""⟩] := by
    rw [Token.tokenize_nothing, Token.scan_of_read?_eq_some hclose, Token.scan_eq, hsearch]
    dsimp only
    rw [Token.scan_nil]
    decide
  have hclosed : Token.QuotesClosed (tokenize "]tru\"\\\\\"") := by
    rw [htokens]
    decide
  have happend := minify_append_blank (w := "\t") (y := "\\\"\"") hclosed (by decide) (by decide)
  exact ⟨htokens, happend.1, happend.2 (by decide) (by decide)⟩

end JsonText
