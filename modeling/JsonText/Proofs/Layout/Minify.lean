-- SUMMARY: When the layout without blanks keeps the structural tokens of a text.
import JsonText.Layout.Basic
import JsonText.Proofs.Layout.Format
import JsonText.Proofs.Lexeme.Longest

/-!
# When the minified layout keeps the tokens

`minify` writes the tokens one after another. All of them are read back unless
two numbers run together, and two numbers do so exactly if the first is not a
zero and the second begins with a digit.
-/

namespace JsonText

open Token (Kind Readable Spaced Fuses visible)
open Lexeme

namespace Layout

theorem text_foldl_add (output : Buffer) (ts : List Token) :
    (ts.foldl (fun output t => output.add t.text) output).text =
      output.text ++ Token.concat ts := by
  induction ts generalizing output with
  | nil => exact String.append_empty.symm
  | cons t ts ih =>
      rw [List.foldl_cons, ih, Buffer.text_add, Token.concat_cons, String.append_assoc]

/-- The minified layout of a text is the texts of its tokens. -/
theorem minify_eq_concat (x : String) : minify x = Token.concat (tokens x) := by
  rw [minify, text_foldl_add]
  exact String.empty_append

end Layout

namespace Token

theorem spaced_concat (ts : List Token) :
    Spaced (fun _ _ => False) ts (concat ts).toList := by
  rw [toList_concat]
  induction ts with
  | nil => exact .nil Layout.blank_empty
  | cons t ts ih => exact .cons Layout.blank_empty (fun _ _ h => h.elim) ih

/-- Of two tokens that run together, the first is not what stands at their head. -/
theorem Fuses.read?_ne {t u : Token} (h : Fuses t u) (ht : t.kind.Spells t.text.toList)
    (s : List Char) :
    read? (t.text.toList ++ (u.text.toList ++ s)) ≠
      some (t.text.toList, u.text.toList ++ s) := by
  intro hread
  obtain ⟨hk, h0, hm0, -, c, hc, hd⟩ := h
  have hstops := (spells_ofChars_of_read? hread).2
  rw [ht.ofChars_eq, hk] at hstops
  rcases hstops with (hz | hz) | hz
  · exact h0 (String.toList_inj.mp hz)
  · exact hm0 (String.toList_inj.mp hz)
  · have hne : u.text.toList ≠ [] := by
      intro hu
      simp [hu] at hc
    have hf := hz c (by rw [List.head?_append_of_ne_nil _ hne]; exact hc)
    rw [hd] at hf
    exact absurd hf (by decide)

/-- A number is read at the head of a text that begins with a number, if perhaps a longer
one. -/
theorem visible_number_append {t : Token} (ht : t.kind.Spells t.text.toList)
    (hk : t.kind = .number) (s : List Char) :
    ∃ m r, read? (t.text.toList ++ s) = some (m, r) ∧
      visible (t.text.toList ++ s) = ofChars m :: visible r := by
  have hm : IsNumber t.text.toList := by rwa [hk] at ht
  obtain ⟨m, r, hnum, -⟩ := hm.exists_prefix (List.prefix_append _ s)
  have hread : read? (t.text.toList ++ s) = some (m, r) := (hm.read?_append s).trans hnum
  refine ⟨m, r, hread, visible_of_read?_eq_some hread ?_⟩
  rw [Kind.Spells.ofChars_eq (k := .number) (isNumber_of_number? hnum).1]
  decide

/-- Of two tokens that run together, the first is not read back. -/
theorem Fuses.visible_ne {t u : Token} (h : Fuses t u) (ht : t.kind.Spells t.text.toList)
    (s : List Char) (ts : List Token) :
    visible (t.text.toList ++ (u.text.toList ++ s)) ≠ t :: ts := by
  intro hvis
  obtain ⟨m, r, hread, heq⟩ := visible_number_append ht h.1 (u.text.toList ++ s)
  -- What is read is a number, hence the first token; then it is `t` itself.
  rw [heq] at hvis
  obtain rfl : m = t.text.toList := by
    rw [← (List.cons.inj hvis).1, toList_text_ofChars]
  obtain rfl : r = u.text.toList ++ s :=
    List.append_cancel_left (cuts_of_read? hread).1
  exact h.read?_ne ht s hread

/-- Tokens that are read back from their texts alone do not run together. -/
theorem isChain_of_visible_concat {ts : List Token} (hr : Readable ts)
    (h : visible (concat ts).toList = ts) : ts.IsChain fun a b => ¬ Fuses a b := by
  induction ts with
  | nil => exact .nil
  | cons t ts ih =>
      have ht := hr.spells t (by simp)
      rw [toList_concat, List.flatMap_cons, ← toList_concat] at h
      have hapart : ∀ u ∈ ts.head?, ¬ Fuses t u := by
        intro u hu hfu
        obtain ⟨us, rfl⟩ := List.head?_eq_some_iff.mp hu
        rw [toList_concat, List.flatMap_cons] at h
        exact hfu.visible_ne ht _ _ h
      have hvis := (spaced_concat ts).visible_append hr fun u hu hfu => absurd hfu (hapart u hu)
      rw [hvis] at h
      exact List.isChain_cons.mpr ⟨hapart, ih hr.tail (List.cons.inj h).2⟩

/-- Readable tokens are read back from their texts alone exactly if none of them run
together. -/
theorem visible_concat_iff {ts : List Token} (hr : Readable ts) :
    visible (concat ts).toList = ts ↔ ts.IsChain fun a b => ¬ Fuses a b := by
  constructor
  · exact isChain_of_visible_concat hr
  · intro hc
    exact ((spaced_concat ts).imp hc).visible_eq hr

end Token

/-- Reading the minified layout of a text back, blanks aside, yields the structural tokens of
the text exactly if among these no number other than zero stands directly before a number
that begins with a digit. -/
theorem tokenize_minify_iff {x : String} (hx : x ≠ "") :
    Token.tokenize (minify x) { dropWhitespace := true } = Token.structural x ↔
      (Token.structural x).IsChain fun a b => ¬ Fuses a b := by
  rw [Token.tokenize_dropWhitespace, Layout.minify_eq_concat, Layout.tokens_of_ne_empty hx]
  exact Token.visible_concat_iff (Token.readable_structural x)

/-- Two numbers with fractions run together. -/
theorem tokenize_minify_fractions :
    Token.structural "1.5 2.5" = [⟨.number, "1.5"⟩, ⟨.number, "2.5"⟩] ∧
      Token.tokenize (minify "1.5 2.5") { dropWhitespace := true } ≠
        Token.structural "1.5 2.5" := by
  have hfirst : Lexeme.read? "1.5 2.5".toList = some ("1.5".toList, " 2.5".toList) := by decide
  have hblank : Lexeme.read? " 2.5".toList = some ([' '], "2.5".toList) := by decide
  have hsecond : Lexeme.read? "2.5".toList = some ("2.5".toList, []) := by decide
  have htokens : Token.structural "1.5 2.5" = [⟨.number, "1.5"⟩, ⟨.number, "2.5"⟩] := by
    rw [Token.structural, Token.tokenize, Token.scan_of_read?_eq_some hfirst,
      Token.scan_of_read?_eq_some hblank, Token.scan_of_read?_eq_some hsecond, Token.scan_nil]
    decide
  refine ⟨htokens, fun h => ?_⟩
  have hchain := (tokenize_minify_iff (by decide)).mp h
  rw [htokens] at hchain
  exact absurd hchain (by decide)

end JsonText
