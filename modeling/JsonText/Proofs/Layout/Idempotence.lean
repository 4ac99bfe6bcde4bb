-- SUMMARY: Laying out a text that is laid out already.
import JsonText.Proofs.Layout.Minify

/-!
# Layouts of a layout

A layout looks at nothing but the tokens that it keeps. The indented layout of a
text has these tokens again, so another layout of it is the layout of the text
itself. The empty layout is the exception: it stands for `null`, and the text it
came from, of blanks and unknown fragments, does not.
-/

namespace JsonText

open Token (Fuses visible)

namespace Layout

/-- Some token of the text is neither blank nor unknown. -/
def HasStructure (x : String) : Prop :=
  ∃ t ∈ Token.tokenize x, t.kind ≠ .whitespace ∧ t.kind ≠ .unknown

theorem structural_ne_nil_iff (x : String) : Token.structural x ≠ [] ↔ HasStructure x := by
  rw [HasStructure, Token.tokenize_nothing, Token.structural, Token.tokenize, ne_eq,
    List.filter_eq_nil_iff]
  simp only [Token.Filter.keeps_structural, not_forall, not_not, exists_prop]

/-- There is something to lay out exactly if the text is empty or has structure. -/
theorem tokens_ne_nil_iff (x : String) : tokens x ≠ [] ↔ x = "" ∨ HasStructure x := by
  by_cases hx : x = ""
  · subst hx
    simp [tokens_empty]
  · rw [tokens_of_ne_empty hx, structural_ne_nil_iff]
    simp [hx]

/-! ## Equal and empty layouts -/

theorem format_congr {x y : String} (h : tokens x = tokens y) : format x = format y := by
  rw [format, h, ← format]

theorem minify_congr {x y : String} (h : tokens x = tokens y) : minify x = minify y := by
  rw [minify, h, ← minify]

theorem format_of_tokens_eq_nil {x : String} (h : tokens x = []) : format x = "" := by
  rw [format_eq_write, h, write_nil]

theorem minify_of_tokens_eq_nil {x : String} (h : tokens x = []) : minify x = "" := by
  rw [minify, h]
  rfl

theorem format_empty : format "" = "null\n" := by
  rw [format_eq_write, tokens_empty]
  rfl

theorem minify_empty : minify "" = "null" := by
  rw [minify_eq_concat, tokens_empty]
  rfl

/-! ## The tokens of the indented layout -/

theorem visible_format (x : String) : visible (format x).toList = tokens x := by
  rw [format_eq_write]
  exact (spaced_write none 0 _).visible_eq (readable_tokens x)

theorem filter_tokens (x : String) :
    ((tokens x).filter fun t => Token.Filter.structural.keeps t.kind) = tokens x := by
  rw [tokens, Token.structural, Token.tokenize, List.filter_filter]
  simp only [Bool.and_self]

theorem structural_format (x : String) : Token.structural (format x) = tokens x := by
  rw [Token.structural_eq_filter, visible_format, filter_tokens]

theorem format_ne_empty {x : String} (h : tokens x ≠ []) : format x ≠ "" := by
  intro hx
  apply h
  rw [← structural_format, hx]
  exact Token.structural_empty

/-- A layout finds the same tokens in the indented layout as in the text. -/
theorem tokens_format {x : String} (h : tokens x ≠ []) : tokens (format x) = tokens x := by
  rw [tokens_of_ne_empty (format_ne_empty h), structural_format]

/-! ## The tokens of the minified layout -/

theorem minify_ne_empty {x : String} (h : tokens x ≠ []) : minify x ≠ "" := by
  obtain ⟨t, ts, hts⟩ := List.exists_cons_of_ne_nil h
  have ht : t.text.toList ≠ [] := by
    apply Token.Kind.Spells.ne_nil
    apply (readable_tokens x).spells t
    rw [hts]
    exact List.mem_cons_self
  intro hx
  rw [minify_eq_concat, hts, Token.concat_cons] at hx
  apply ht
  rw [(String.append_eq_empty_iff.mp hx).1, String.toList_empty]

/-- A layout finds the same tokens in the minified layout as in the text if no two of them run
together. -/
theorem tokens_minify {x : String} (h : tokens x ≠ [])
    (hc : (tokens x).IsChain fun a b => ¬ Fuses a b) : tokens (minify x) = tokens x := by
  have hvis : visible (minify x).toList = tokens x := by
    rw [minify_eq_concat]
    exact (Token.visible_concat_iff (readable_tokens x)).mpr hc
  rw [tokens_of_ne_empty (minify_ne_empty h), Token.structural_eq_filter, hvis, filter_tokens]

/-- Tokens that a layout finds again in the minified layout do not run together. -/
theorem isChain_of_structural_minify {x : String}
    (h : Token.structural (minify x) = tokens x) :
    (tokens x).IsChain fun a b => ¬ Fuses a b := by
  -- They make up the whole text, so nothing unknown stands between them.
  have hscan : Token.scan (minify x).toList = tokens x := by
    rw [Token.scan_eq_structural (by rw [h, minify_eq_concat]), h]
  apply Token.isChain_of_visible_concat (readable_tokens x)
  rw [visible, ← minify_eq_concat, hscan, (readable_tokens x).filter_eq]

end Layout

open Layout

/-- Laying out the indented layout of a text gives, for both layouts, what laying out the text
gives, exactly if the text is empty or has structure. Any other text has the empty layout,
which is laid out as `null`. -/
theorem layout_format_eq_iff (x : String) :
    (format (format x) = format x ↔ x = "" ∨ HasStructure x) ∧
      (minify (format x) = minify x ↔ x = "" ∨ HasStructure x) ∧
      (¬ (x = "" ∨ HasStructure x) →
        format x = "" ∧ minify x = "" ∧
          format (format x) = "null\n" ∧ minify (format x) = "null") := by
  rw [← tokens_ne_nil_iff, not_not]
  by_cases h : tokens x = []
  · have hf := format_of_tokens_eq_nil h
    have hm := minify_of_tokens_eq_nil h
    rw [hf, hm, format_empty, minify_empty]
    simp [h]
  · have hf := format_congr (tokens_format h)
    have hm := minify_congr (tokens_format h)
    simp [h, hf, hm]

/-- A blank and an unknown character have the empty layout, and that stands for `null`. -/
theorem layout_format_hash :
    ¬ ("\t#" = "" ∨ HasStructure "\t#") ∧
      format (format "\t#") = "null\n" ∧ minify (format "\t#") = "null" := by
  have hblank : Lexeme.read? "\t#".toList = some (['\t'], ['#']) := by decide
  have hhash : Lexeme.search ['#'] = ⟨['#'], none⟩ := by decide
  have hnil : Token.structural "\t#" = [] := by
    rw [Token.structural, Token.tokenize, Token.scan_of_read?_eq_some hblank, Token.scan_eq, hhash]
    decide
  have hx : ¬ ("\t#" = "" ∨ HasStructure "\t#") := by
    rw [← structural_ne_nil_iff, hnil]
    decide
  obtain ⟨-, -, hformat, hminify⟩ := (layout_format_eq_iff "\t#").2.2 hx
  exact ⟨hx, hformat, hminify⟩

end JsonText
