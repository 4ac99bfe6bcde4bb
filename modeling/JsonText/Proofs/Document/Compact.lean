-- SUMMARY: The minified layout of a document's text is the compact text of the document.
import JsonText.Proofs.Document.Parsing
import JsonText.Proofs.Layout.Minify

/-!
# Minified documents

The compact text of a document follows its tree and is built from the left. It
is made of the tokens of the document, and so is the minified layout of any text
of the document. Minifying such a text leaves a text of the same document.
-/

namespace JsonText

open Token (concat concat_nil concat_cons concat_append)

namespace Document

/-! ## The compact text and the tokens -/

mutual

theorem addCompact_eq (out : String) : ∀ d : Document, addCompact out d = out ++ concat d.tokens
  | null => rfl
  | bool true => rfl
  | bool false => rfl
  | number s | string s => by
      rw [addCompact, tokens, concat_cons, concat_nil, String.append_empty]
  | array [] => rfl
  | array (d :: ds) => by
      rw [addCompact, addCompactItems_eq, addCompact_eq, tokens, concat_append, concat_append,
        concat_cons]
      simp only [String.append_assoc]
      rfl
  | object [] => rfl
  | object ((k, d) :: ms) => by
      rw [addCompact, addCompactMembers_eq, addCompact_eq, tokens, concat_append, concat_append,
        concat_cons, concat_cons, concat_cons]
      simp only [String.append_assoc]
      rfl

theorem addCompactItems_eq (out : String) : ∀ ds : List Document,
    addCompactItems out ds = out ++ concat (itemTokens ds)
  | [] => String.append_empty.symm
  | d :: ds => by
      rw [addCompactItems, addCompactItems_eq, addCompact_eq, itemTokens, concat_append,
        concat_cons]
      simp only [String.append_assoc]

theorem addCompactMembers_eq (out : String) : ∀ ms : List (String × Document),
    addCompactMembers out ms = out ++ concat (memberTokens ms)
  | [] => String.append_empty.symm
  | (k, d) :: ms => by
      rw [addCompactMembers, addCompactMembers_eq, addCompact_eq, memberTokens, concat_append,
        concat_cons, concat_cons, concat_cons]
      simp only [String.append_assoc]

end

/-- The compact text consists of the texts of the tokens. -/
theorem compact_eq_concat (d : Document) : d.compact = concat d.tokens := by
  rw [compact, addCompact_eq, String.empty_append]

/-- The compact text spells the document. -/
theorem WellSpelled.isText_compact {d : Document} (h : d.WellSpelled) : d.IsText d.compact where
  wellSpelled := h
  spaced := by
    rw [d.compact_eq_concat]
    exact Token.spaced_concat d.tokens

/-! ## Minified texts -/

theorem IsText.minify_eq {d : Document} {text : String} (h : d.IsText text) :
    minify text = d.compact := by
  rw [Layout.minify_eq_concat, Layout.tokens_of_ne_empty h.ne_empty, h.structural_eq,
    d.compact_eq_concat]

/-- The minified text spells the same document. -/
theorem IsText.minify {d : Document} {text : String} (h : d.IsText text) :
    d.IsText (minify text) := by
  rw [h.minify_eq]
  exact h.wellSpelled.isText_compact

/-- The minified text consists of the tokens of the document. -/
theorem IsText.tokenize_minify {d : Document} {text : String} (h : d.IsText text) :
    Token.tokenize (JsonText.minify text) = d.tokens := by
  have hconcat : concat (Token.structural (JsonText.minify text)) = JsonText.minify text := by
    rw [h.minify.structural_eq, h.minify_eq, d.compact_eq_concat]
  rw [Token.tokenize_nothing, Token.scan_eq_structural hconcat, h.minify.structural_eq]

end Document

/-- The minified layout of a text that spells a document is the compact text of the document,
whose tokens are those of the document and nothing else. It is the same for every text of the
document, and it is parsed as the document. -/
theorem minify_eq_compact {d : Document} {text : String} (h : d.IsText text) :
    minify text = d.compact ∧ Token.tokenize (minify text) = d.tokens ∧
      (∀ other, d.IsText other → minify other = minify text) ∧
      Document.parse? text = some d ∧ Document.parse? (minify text) = some d := by
  refine ⟨h.minify_eq, h.tokenize_minify, ?_, h.parse?_eq, h.minify.parse?_eq⟩
  intro other hother
  rw [hother.minify_eq, h.minify_eq]

/-- A document with a key that occurs twice, and with blanks and punctuation in a string. -/
theorem minify_repeated_key :
    (Document.object [("\"k\"", .string "\"a, [b\""), ("\"k\"", .array [])]).IsText
        "\x7b \"k\" :\t\"a, [b\"\n, \"k\": [ ]\x7d" ∧
      minify "\x7b \"k\" :\t\"a, [b\"\n, \"k\": [ ]\x7d" =
        "\x7b\"k\":\"a, [b\",\"k\":[]\x7d" := by
  have hkey : Escape.isString "\"k\"" = true := by decide
  have hvalue : Escape.isString "\"a, [b\"" = true := by decide
  have htext : (Document.object [("\"k\"", .string "\"a, [b\""), ("\"k\"", .array [])]).IsText
      "\x7b \"k\" :\t\"a, [b\"\n, \"k\": [ ]\x7d" := by
    constructor
    · exact ⟨hkey, hvalue, hkey, trivial, trivial⟩
    · exact .cons (g := []) (by decide) nofun <| .cons (g := [' ']) (by decide) nofun <|
        .cons (g := [' ']) (by decide) nofun <| .cons (g := ['\t']) (by decide) nofun <|
        .cons (g := ['\n']) (by decide) nofun <| .cons (g := [' ']) (by decide) nofun <|
        .cons (g := []) (by decide) nofun <| .cons (g := [' ']) (by decide) nofun <|
        .cons (g := [' ']) (by decide) nofun <| .cons (g := []) (by decide) nofun <|
        .nil (g := []) (by decide)
  exact ⟨htext, (minify_eq_compact htext).1.trans (by decide)⟩

end JsonText
