-- SUMMARY: Both texts of a value spell its tree, and a text as a value is one string token.
import JsonText.Proofs.Document.Pretty
import JsonText.Proofs.Value.Standard
import JsonText.Proofs.Value.Tree

/-!
# Written values

The two texts of a value come from what the writer gives, which goes through the
scanner once more. Nothing is lost there, since a documented writer spells every
string, key and number as JSON has it. So one text is the writer's text itself,
and the other one is the indented text of the value's tree.
-/

namespace JsonText

open JsonText.Except (exists_of_map_eq_ok)
open Token (tokenize)

/-! ## Both texts of a value -/

/-- The layout finds the document in the compact text. -/
theorem Document.WellSpelled.format_compact {d : Document} (h : d.WellSpelled) :
    format d.compact = d.pretty := by
  rw [Layout.format_eq_write, Layout.tokens_of_ne_empty h.isText_compact.ne_empty,
    h.isText_compact.structural_eq, d.write_tokens]

namespace Writer.Documented

variable {w : Writer} {v : Value} {d : Document}

/-- What is written is the text of a tree. -/
theorem exists_document (hw : w.Documented) {text : String} (h : w.write v = .ok text) :
    ∃ d, w.document v = .ok d ∧ d.compact = text :=
  exists_of_map_eq_ok ((hw.write_eq v).symm.trans h)

theorem write_of_document (hw : w.Documented) (hd : w.document v = .ok d) :
    w.write v = .ok d.compact := by
  rw [hw.write_eq, hd, Except.map_ok]

theorem serialize_of_document (hw : w.Documented) (hd : w.document v = .ok d) :
    serialize w v = .ok d.pretty := by
  rw [serialize, hw.write_of_document hd, ← (hw.wellSpelled_of_document hd).format_compact]
  rfl

theorem serializeMinified_of_document (hw : w.Documented) (hd : w.document v = .ok d) :
    serializeMinified w v = .ok d.compact := by
  rw [serializeMinified, hw.write_of_document hd]
  exact congrArg Except.ok (hw.wellSpelled_of_document hd).isText_compact.minify_eq

end Writer.Documented

theorem getLast?_toList_append {t : String} {c : Char} (h : t.toList.getLast? = some c)
    (s : String) : (s ++ t).toList.getLast? = some c := by
  rw [String.toList_append, List.getLast?_append, h]
  rfl

/-- Only the text of a scalar ends with a line feed. -/
theorem Document.getLast?_pretty (d : Document) :
    d.pretty.toList.getLast? = some '\n' ↔ d.isScalar = true := by
  cases hd : d.isScalar with
  | true =>
      rw [pretty, hd, if_pos rfl, getLast?_toList_append (c := '\n') rfl]
      simp
  | false =>
      have hclose : (prettyAt 0 d).toList.getLast? = some ']' ∨
          (prettyAt 0 d).toList.getLast? = some '}' := by
        match d, hd with
        | .array [], _ => exact .inl rfl
        | .array (_ :: _), _ => exact .inl (getLast?_toList_append rfl _)
        | .object [], _ => exact .inr rfl
        | .object (_ :: _), _ => exact .inr (getLast?_toList_append rfl _)
      rw [pretty, hd, if_neg nofun, String.append_empty]
      rcases hclose with h | h <;> rw [h] <;> decide

/-- The minified text of a value is the text that the writer gives. That is the compact text of
the value's tree, in which the scanner finds the tokens of the tree and nothing else. The other
text is the indented text of the tree, which ends with a line feed only for a scalar. Either text
is parsed as the tree. -/
theorem serialize_eq_pretty {w : Writer} (hw : w.Documented) {v : Value} {text : String}
    (h : w.write v = .ok text) :
    serializeMinified w v = .ok text ∧
      ∃ d, w.document v = .ok d ∧ d.compact = text ∧ tokenize text = d.tokens ∧
        serialize w v = .ok d.pretty ∧
        (d.pretty.toList.getLast? = some '\n' ↔ d.isScalar = true) ∧
        Document.parse? text = some d ∧ Document.parse? d.pretty = some d := by
  obtain ⟨d, hd, rfl⟩ := hw.exists_document h
  have hspelled : d.WellSpelled := hw.wellSpelled_of_document hd
  have htokens : tokenize d.compact = d.tokens := by
    rw [← hspelled.isText_compact.minify_eq]
    exact hspelled.isText_compact.tokenize_minify
  exact ⟨hw.serializeMinified_of_document hd, d, hd, rfl, htokens, hw.serialize_of_document hd,
    d.getLast?_pretty, hspelled.isText_compact.parse?_eq, hspelled.isText_pretty.parse?_eq⟩

/-- A text with escapes, and a key that is no text and comes twice. -/
theorem serialize_escapes :
    Writer.standard.write (.struct [("\\", .str "\"\n"), ("m", .map
        [(.int (-1), .float (.single 0x7FC00000)),
          (.int (-1), .float (.double 0x4341C37937E08000))])]) =
      .ok "\x7b\"\\\\\":\"\\\"\\n\",\"m\":\x7b\"-1\":null,\"-1\":1e+16\x7d\x7d" ∧
    serialize .standard (.struct [("\\", .str "\"\n"), ("m", .map
        [(.int (-1), .float (.single 0x7FC00000)),
          (.int (-1), .float (.double 0x4341C37937E08000))])]) =
      .ok ("\x7b\n    \"\\\\\": \"\\\"\\n\",\n    \"m\": \x7b\n" ++
        "        \"-1\": null,\n        \"-1\": 1e+16\n    \x7d\n\x7d") := by
  have hspell : Standard.spell (.double 0x4341C37937E08000) = "1e+16" := by decide +kernel
  have hfloat : Writer.standard.write (.float (.double 0x4341C37937E08000)) = .ok "1e+16" :=
    congrArg Except.ok hspell
  have hdocument : Writer.standard.document (.struct [("\\", .str "\"\n"), ("m", .map
        [(.int (-1), .float (.single 0x7FC00000)),
          (.int (-1), .float (.double 0x4341C37937E08000))])]) =
      .ok (.object [("\"\\\\\"", .string "\"\\\"\\n\""),
        ("\"m\"", .object [("\"-1\"", .null), ("\"-1\"", .number "1e+16")])]) := by
    simp only [Writer.document, Writer.fields, Writer.entries, hfloat]
    rfl
  have hwrite := Writer.standard_documented.write_of_document hdocument
  obtain ⟨-, d, hd, -, -, hserialized, -⟩ :=
    serialize_eq_pretty Writer.standard_documented hwrite
  obtain rfl := Except.ok.inj (hdocument.symm.trans hd)
  exact ⟨hwrite, hserialized⟩

/-! ## Text as a value -/

/-- The scanner ends a well-formed string where it was written to end, whatever stands
behind it. -/
theorem Token.tokenize_string_append {q : String} (hq : Escape.isString q = true)
    (rest : String) : tokenize (q ++ rest) = ⟨.string, q⟩ :: tokenize rest := by
  have hclosed : Lexeme.IsClosed q.toList := Escape.isClosed_of_isString hq
  have hspells : Kind.string.Spells q.toList := .inl hclosed
  have hstops : Kind.string.Stops q.toList rest.toList := fun hforced =>
    absurd hforced (Lexeme.not_isForced_of_isClosed hclosed)
  have hread := Lexeme.read?_append hspells hstops fun h => absurd h (by decide)
  have htoken : ofChars q.toList = ⟨.string, q⟩ :=
    ofChars_toList_text (t := ⟨.string, q⟩) hspells
  rw [tokenize_nothing, tokenize_nothing, String.toList_append, scan_of_read?_eq_some hread, htoken]

theorem Token.tokenize_string {q : String} (hq : Escape.isString q = true) :
    tokenize q = [⟨.string, q⟩] := by
  have happend := tokenize_string_append hq ""
  rwa [String.append_empty, tokenize_nothing "", String.toList_empty, scan_nil] at happend

/-- Any text can be written. The minified text of a text is one string token, also with something
behind it, and its escapes stand for the text again. The other text is the same with a line feed
behind it. -/
theorem exists_serializeMinified_str {w : Writer} (hw : w.Documented) (s : String) :
    ∃ out, serializeMinified w (.str s) = .ok out ∧
      tokenize out = [⟨.string, out⟩] ∧
      (∀ rest, tokenize (out ++ rest) = ⟨.string, out⟩ :: tokenize rest) ∧
      Escape.unquote? out = some s ∧
      serialize w (.str s) = .ok (out ++ "\n") := by
  obtain ⟨q, hq, hquotes⟩ := hw.str s
  have hdocument : w.document (.str s) = .ok (.string q) := by
    rw [Writer.document, hq, Except.map_ok]
  have hminified := hw.serializeMinified_of_document hdocument
  rw [Document.compact_string] at hminified
  exact ⟨q, hminified, Token.tokenize_string hquotes.isString,
    Token.tokenize_string_append hquotes.isString, hquotes.unquote?_eq,
    hw.serialize_of_document hdocument⟩

/-- A quote and a control character in front of a backslash at the end. -/
theorem serializeMinified_str_backslash :
    serializeMinified .standard (.str "\"\x01\\") = .ok "\"\\\"\\u0001\\\\\"" ∧
      tokenize "\"\\\"\\u0001\\\\\"" = [⟨.string, "\"\\\"\\u0001\\\\\""⟩] := by
  have hwrite : Writer.standard.document (.str "\"\x01\\") =
      .ok (.string "\"\\\"\\u0001\\\\\"") := rfl
  have hminified := Writer.standard_documented.serializeMinified_of_document hwrite
  rw [Document.compact_string] at hminified
  obtain ⟨out, hout, htoken, -⟩ :=
    exists_serializeMinified_str Writer.standard_documented "\"\x01\\"
  obtain rfl := Except.ok.inj (hminified.symm.trans hout)
  exact ⟨hminified, htoken⟩

end JsonText
