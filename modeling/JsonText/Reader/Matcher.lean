-- SUMMARY: Finding the lexemes of a text one after another, by their byte offsets.
import JsonText.Lexeme.Search
import JsonText.Reader.Slice

/-!
# Matchers

A matcher goes through a text and yields where its lexemes begin and end. Each
search starts where the lexeme found last ends. What stands between two lexemes
it passes over without a word.
-/

namespace JsonText

/-- Where a lexeme stands in a text. -/
structure Match where
  /-- The text that was searched. -/
  haystack : String
  /-- The offset of the first byte of the lexeme. -/
  start : Nat
  /-- The offset behind the last byte of the lexeme. -/
  stop : Nat
deriving DecidableEq, Repr

/-- The lexeme itself. -/
def Match.lexeme (m : Match) : Except SliceError (List Char) :=
  slice m.haystack m.start m.stop

/-- A search for lexemes that has come to some point of a text. -/
structure Matcher where
  /-- The text that is searched. -/
  haystack : String
  /-- The offset at which the next search starts. -/
  position : Nat
deriving DecidableEq, Repr

namespace Matcher

/-- The matcher at the start of `text`. -/
def ofString (text : String) : Matcher where
  haystack := text
  position := 0

/-- The next lexeme and the matcher behind it; nothing if there is none, however often it is
asked for. -/
def next? (m : Matcher) : Option (Match × Matcher) :=
  match splitBytes? m.position m.haystack.toList with
  | none => none
  | some (_, s) =>
    match (Lexeme.search s).hit with
    | none => none
    | some (lexeme, _) =>
      let start := m.position + byteLength (Lexeme.search s).gap
      let stop := start + byteLength lexeme
      some (⟨m.haystack, start, stop⟩, { m with position := stop })

theorem next?_of_search {m : Matcher} {p s : List Char} (h : m.haystack.toList = p ++ s)
    (hp : m.position = byteLength p) :
    m.next? = (Lexeme.search s).hit.map fun hit =>
      let start := m.position + byteLength (Lexeme.search s).gap
      let stop := start + byteLength hit.1
      (⟨m.haystack, start, stop⟩, { m with position := stop }) := by
  rw [next?, h, hp, splitBytes?_append]
  dsimp only
  cases (Lexeme.search s).hit <;> rfl

/-- A search moves on, within the text. -/
theorem position_lt_of_next? {m m' : Matcher} {found : Match} (h : m.next? = some (found, m')) :
    m'.haystack = m.haystack ∧ m.position < m'.position ∧
      m'.position ≤ m.haystack.utf8ByteSize := by
  unfold next? at h
  split at h
  · cases h
  · next p s hsplit =>
    obtain ⟨htext, hp⟩ := of_splitBytes?_eq_some hsplit
    split at h
    · cases h
    · next lexeme r hhit =>
      cases h
      obtain ⟨happ, hne⟩ := Lexeme.cuts_of_hit_eq_some hhit
      have hpos := byteLength_pos hne
      have hlen := congrArg byteLength htext
      rw [byteLength_toList, byteLength_append, ← happ, byteLength_append, byteLength_append]
        at hlen
      refine ⟨rfl, ?_, ?_⟩ <;> dsimp only <;> omega

end Matcher

end JsonText
