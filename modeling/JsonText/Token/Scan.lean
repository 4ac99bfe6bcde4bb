-- SUMMARY: Scanning a text into its tokens.
import JsonText.Lexeme.Search
import JsonText.Token.Basic

/-!
# Scanning

`scan` cuts a whole text into tokens, and `tokenize` filters what it yields.
Scanning cannot fail: text between two lexemes becomes one unknown token, so
the texts of the tokens are the source again.
-/

namespace JsonText.Token

/-- The unknown token over a gap; an empty gap yields none. -/
def ofGap : List Char → List Token
  | [] => []
  | c :: cs => [unknown (c :: cs)]

/-- The tokens of a text, in order. -/
def scan (s : List Char) : List Token :=
  go #[] s
where
  /-- Scans the rest of a text, after the tokens already found. -/
  go (found : Array Token) (s : List Char) : List Token :=
    match _h : (Lexeme.search s).hit with
    | none => (found.appendList (ofGap (Lexeme.search s).gap)).toList
    | some (m, r) => go ((found.appendList (ofGap (Lexeme.search s).gap)).push (ofChars m)) r
  termination_by s.length
  decreasing_by exact Nat.lt_of_le_of_lt (Nat.le_add_left ..) (Lexeme.length_lt_of_hit_eq_some _h)

private theorem scan_go_eq (found : Array Token) (s : List Char) :
    scan.go found s = found.toList ++ scan s := by
  suffices ∀ more : Array Token, scan.go (found ++ more) s = found.toList ++ scan.go more s by
    have hgo := this #[]
    rwa [Array.append_empty] at hgo
  intro more
  fun_induction scan.go more s with
  | case1 more s h => rw [scan.go]; split <;> simp_all
  | case2 more s m r h ih =>
    have hfound : found ++ (more.appendList (ofGap (Lexeme.search s).gap)).push (ofChars m) =
        ((found ++ more).appendList (ofGap (Lexeme.search s).gap)).push (ofChars m) := by
      apply Array.ext'
      simp
    rw [scan.go]
    split <;> simp_all

/-- The scan yields the gap and the lexeme that the search finds, and goes on behind them. -/
theorem scan_eq (s : List Char) :
    scan s = ofGap (Lexeme.search s).gap ++
      match (Lexeme.search s).hit with
      | none => []
      | some (m, r) => ofChars m :: scan r := by
  rw [scan, scan.go]
  split
  · next h => simp [h]
  · next m r h => simp [h, scan_go_eq]

@[simp] theorem scan_nil : scan [] = [] := by
  rw [scan_eq]
  rfl

theorem scan_of_read?_eq_some {s m r : List Char} (h : Lexeme.read? s = some (m, r)) :
    scan s = ofChars m :: scan r := by
  rw [scan_eq, Lexeme.search_of_read?_eq_some h]
  rfl

/-- The tokens of `text` that the filter lets through. -/
def tokenize (text : String) (filter : Filter := .nothing) : List Token :=
  (scan text.toList).filter fun t => filter.keeps t.kind

/-- The tokens of `text` that carry structure or values. -/
def structural (text : String) : List Token :=
  tokenize text .structural

end JsonText.Token
