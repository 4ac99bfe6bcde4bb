-- SUMMARY: The language of each kind of token, and that nothing of it is overlooked.
import JsonText.Proofs.Lexeme.Escaped
import JsonText.Proofs.Lexeme.Longest
import JsonText.Proofs.Token.Spelling

/-!
# Languages

The language of a kind says which texts a token of that kind may have, without
regard to what follows the token. Where a member of some language begins, a
lexeme is read, if perhaps another one; and what is read is always such a member.
-/

namespace JsonText

open Token (Kind)

/-- The language of a kind. Any quote may end a string here, as long as the inside consists of
units. -/
def Token.Kind.Language : Kind → List Char → Prop
  | .string, m => ∃ b, m = '"' :: b ++ ['"'] ∧ Lexeme.Units b
  | k, m => k.Spells m

theorem Token.Kind.Spells.language {k : Kind} {m : List Char} (h : k.Spells m) :
    k.Language m := by
  cases k with
  | string =>
      rcases h with ⟨b, rfl, hb⟩ | ⟨b, rfl, hb⟩
      · exact ⟨b, rfl, hb.units⟩
      · exact ⟨b, rfl, Lexeme.units_of_beforeBareQuote?_eq_none hb⟩
  | _ => exact h

theorem Token.Kind.Language.spells {k : Kind} {m : List Char} (h : k.Language m)
    (hk : k ≠ .string) : k.Spells m := by
  cases k with
  | string => exact absurd rfl hk
  | _ => exact h

namespace Lexeme

/-- A lexeme is read wherever a member of a language begins. -/
theorem exists_read?_of_prefix {k : Kind} {m s : List Char} (hm : k.Language m) (hp : m <+: s) :
    ∃ p, read? s = some p := by
  obtain ⟨t, rfl⟩ := hp
  cases k with
  | unknown => exact absurd hm id
  | whitespace =>
      obtain ⟨c, m, rfl⟩ := List.exists_cons_of_ne_nil hm.1
      have hc : isBlank c = true := hm.2 c (by simp)
      simp [read?, blanks?, hc]
  | string =>
      obtain ⟨b, rfl, -⟩ := hm
      rw [List.cons_append, List.cons_append, read?_eq_quoted?]
      apply Option.ne_none_iff_exists'.mp
      intro h
      exact absurd (by simp) (quoted?_eq_none_iff.mp h)
  | number =>
      obtain ⟨n, r, h, -⟩ := IsNumber.exists_prefix hm (List.prefix_append m t)
      exact ⟨(n, r), (IsNumber.read?_append hm t).trans h⟩
  | _ =>
      rw [show m = _ from hm]
      exact ⟨_, rfl⟩

/-- Nothing is read exactly where no member of any language begins. -/
theorem read?_eq_none_iff {s : List Char} :
    read? s = none ↔ ∀ k m, Kind.Language k m → ¬ m <+: s := by
  constructor
  · intro h k m hm hp
    obtain ⟨p, hread⟩ := exists_read?_of_prefix hm hp
    rw [h] at hread
    exact absurd hread nofun
  · intro h
    cases hread : read? s with
    | none => rfl
    | some p =>
        obtain ⟨k, hspells, -⟩ := spells_of_read? hread
        exact absurd ⟨p.2, (cuts_of_read? hread).1⟩ (h k p.1 hspells.language)

end Lexeme

end JsonText
