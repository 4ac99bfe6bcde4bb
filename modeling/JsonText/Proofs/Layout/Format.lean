-- SUMMARY: The indented layout keeps every structural token of a text.
import JsonText.Proofs.Layout.Depth
import JsonText.Proofs.Token.Readable

/-!
# The indented layout keeps the tokens

All that `format` writes around the tokens is blank, and between two numbers it
writes at least a line feed. So its output is a spaced text of the tokens, and
reading it back yields them again.
-/

namespace JsonText

open Token (Kind Readable Spaced)
open Lexeme (Blank)

namespace Layout

theorem blank_indent (depth : Nat) : Blank (indent depth).toList := by
  rw [toList_indent]
  intro c hc
  rw [List.eq_of_mem_replicate hc]
  rfl

theorem blank_empty : Blank "".toList := by
  decide

theorem blank_before (prev : Option Kind) (depth : Nat) (k : Kind) :
    Blank (before prev depth k).toList := by
  unfold before
  repeat' split
  all_goals first | exact blank_empty | exact blank_indent depth

theorem after_eq (k : Kind) (next : Option Kind) :
    after k next = "" ∨ after k next = " " ∨ after k next = "\n" := by
  unfold after
  repeat' split
  all_goals simp

theorem blank_after (k : Kind) (next : Option Kind) : Blank (after k next).toList := by
  rcases after_eq k next with h | h | h
  · rw [h]; exact blank_empty
  · rw [h]; decide
  · rw [h]; decide

/-- The layout is a spaced text of its tokens. -/
theorem spaced_write (prev : Option Kind) (depth : Nat) (ts : List Token) :
    Spaced Token.Fuses ts (write prev depth ts).toList := by
  induction ts generalizing prev depth with
  | nil => exact .nil blank_empty
  | cons t ts ih =>
      rw [write_cons]
      simp only [String.toList_append, List.append_assoc]
      refine .cons (blank_before _ _ _) ?_ ((ih _ _).blank_append (blank_after _ _))
      -- Neighbours that would run together are numbers, and a line feed ends the first one.
      rintro u hu ⟨ht, -, -, hk, -⟩
      refine ⟨'\n', ?_, rfl⟩
      rw [ht, Option.mem_def.mp hu, Option.map_some, hk]
      rfl

/-- Both layouts lay out tokens that can be read back. -/
theorem readable_tokens (x : String) : Readable (tokens x) :=
  Token.readable_structural _

theorem tokens_of_ne_empty {x : String} (h : x ≠ "") : tokens x = Token.structural x := by
  rw [tokens, if_neg h]

theorem tokens_empty : tokens "" = [⟨.nullWord, "null"⟩] := by
  have hread : Lexeme.read? "null".toList = some ("null".toList, []) := by decide
  rw [tokens, if_pos rfl, Token.structural, Token.tokenize, Token.scan_of_read?_eq_some hread,
    Token.scan_nil]
  decide

end Layout

/-- Reading the indented layout of a text back, blanks aside, yields the structural tokens of
the text, and `null` for the empty text. No part of the layout is unknown. -/
theorem tokenize_format (x : String) :
    Token.tokenize (format x) { dropWhitespace := true } =
        (if x = "" then [⟨.nullWord, "null"⟩] else Token.structural x) ∧
      ∀ t ∈ Token.tokenize (format x), t.kind ≠ .unknown := by
  have hread : Token.visible (format x).toList = Layout.tokens x := by
    rw [Layout.format_eq_write]
    exact (Layout.spaced_write none 0 _).visible_eq (Layout.readable_tokens x)
  constructor
  · rw [Token.tokenize_dropWhitespace, hread]
    split
    · next h => rw [h, Layout.tokens_empty]
    · next h => exact Layout.tokens_of_ne_empty h
  · intro t ht hk
    have ht' : t ∈ Token.visible (format x).toList := by
      refine List.mem_filter.mpr ⟨(List.mem_filter.mp ht).1, ?_⟩
      rw [hk]
      rfl
    rw [hread] at ht'
    exact (Token.Filter.keeps_structural.mp (List.mem_filter.mp ht').2).2 hk

end JsonText
