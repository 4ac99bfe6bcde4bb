-- SUMMARY: The structural tokens of a text, and well-formed tokens, can be read back.
import JsonText.Proofs.Token.Spaced

/-!
# Readable token lists

What a scan keeps as structural can be read back from any spaced text. The one
thing that could go wrong is a forced string: it was closed for want of a better
quote, so no quote is left for the tokens behind it. Tokens without forced
strings can be read back in any order.
-/

namespace JsonText.Token

open Lexeme

/-! ## Structural tokens -/

theorem Cut.readable {s : List Char} {ts : List Token} (h : Cut s ts) :
    Readable (ts.filter fun t => Filter.structural.keeps t.kind) := by
  have hgap : ∀ g, ((ofGap g).filter fun t => Filter.structural.keeps t.kind) = [] := by
    intro g
    cases g <;> rfl
  induction h with
  | gap _ => rw [hgap]; exact .nil
  | @lexeme g m r ts _ hm hr ih =>
      rw [List.filter_append, hgap, List.nil_append, List.filter_cons]
      obtain ⟨k, hspells, hstops⟩ := spells_of_read? hm
      have hk : (ofChars m).kind = k := hspells.ofChars_eq
      split
      · next hkeep =>
        refine .cons (by rwa [hk, toList_text_ofChars]) (Filter.keeps_structural.mp hkeep).1 ?_ ih
        intro u hu hforced hq
        rw [toList_text_ofChars] at hforced
        have hstring : k = .string := by
          rw [← hspells.ofChars_eq]
          exact Kind.Spells.ofChars_eq (k := .string) (.inr hforced)
        subst hstring
        refine hstops hforced ?_
        rw [← hr.flatMap_eq]
        exact List.mem_flatMap.mpr ⟨u, (List.mem_filter.mp hu).1, hq⟩
      · exact ih

/-- The structural tokens of every text can be read back. -/
theorem readable_structural (x : String) : Readable (structural x) :=
  (cut_scan x.toList).readable

theorem structural_empty : structural "" = [] := by
  rw [structural, tokenize, String.toList_empty, scan_nil, List.filter_nil]

/-! ## Tokens without forced strings -/

/-- The token is a lexeme of its kind, other than blanks and forced strings. -/
structure IsPlain (t : Token) : Prop where
  spells : t.kind.Spells t.text.toList
  solid : t.kind ≠ .whitespace
  closed : ¬ IsForced t.text.toList

theorem isPlain_of_ne_string {t : Token} (h : t.kind.Spells t.text.toList)
    (hw : t.kind ≠ .whitespace) (hs : t.kind ≠ .string) : IsPlain t :=
  ⟨h, hw, h.not_isForced hs⟩

theorem isPlain_of_isClosed {text : String} (h : IsClosed text.toList) :
    IsPlain ⟨.string, text⟩ :=
  ⟨.inl h, nofun, not_isForced_of_isClosed h⟩

theorem readable_of_isPlain {ts : List Token} (h : ∀ t ∈ ts, IsPlain t) : Readable ts where
  spells t ht := (h t ht).spells
  solid t ht := (h t ht).solid
  forced := List.pairwise_of_forall_mem_list fun t ht _ _ hf => absurd hf (h t ht).closed

/-- Plain tokens of which no neighbours run together. They are read back from their texts
alone, and from any text that spells them with blanks around them. -/
structure Sound (ts : List Token) : Prop where
  plain : ∀ t ∈ ts, IsPlain t
  apart : ts.IsChain fun a b => ¬ Fuses a b

theorem Sound.nil : Sound [] :=
  ⟨by simp, .nil⟩

theorem Sound.cons {t : Token} {ts : List Token} (h : Sound ts) (ht : IsPlain t)
    (hn : t.kind ≠ .number ∨ ∀ u ∈ ts.head?, u.kind ≠ .number) : Sound (t :: ts) where
  plain := by
    intro u hu
    rcases List.mem_cons.mp hu with rfl | hu
    · exact ht
    · exact h.plain u hu
  apart := by
    refine List.isChain_cons.mpr ⟨?_, h.apart⟩
    rintro u hu ⟨hk, -, -, hk', -⟩
    rcases hn with hn | hn
    · exact hn hk
    · exact hn u hu hk'

theorem Spaced.visible_of_sound {ts : List Token} {s : List Char}
    (h : Spaced (fun _ _ => False) ts s) (hts : Sound ts) : visible s = ts :=
  (h.imp hts.apart).visible_eq (readable_of_isPlain hts.plain)

/-- A text that spells sound tokens has no other structural tokens. -/
theorem Spaced.structural_of_sound {ts : List Token} {text : String}
    (h : Spaced (fun _ _ => False) ts text.toList) (hts : Sound ts) : structural text = ts := by
  rw [structural_eq_filter, h.visible_of_sound hts]
  refine List.filter_eq_self.mpr fun t ht => Filter.keeps_structural.mpr ⟨?_, ?_⟩
  · exact (hts.plain t ht).solid
  · intro hk
    have hspells := (hts.plain t ht).spells
    rw [hk] at hspells
    exact hspells

end JsonText.Token
