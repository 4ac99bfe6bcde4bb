-- SUMMARY: The two layouts of a text: one value a line with indentation, and all in one run.
import JsonText.Layout.Buffer
import JsonText.Layout.Indent
import JsonText.Token.Scan

/-!
# Layouts

`format` puts each value on a line of its own, indented by its depth; `minify`
leaves no space between tokens. Both keep every token with structure or value
as it is written, and both lay out any text, valid or not. The indented layout
goes through the tokens once. It looks back at the kind of the token before and
ahead at the kind of the next one, and carries the indentation along.
-/

namespace JsonText

open Token (Kind)

namespace Layout

/-! ## Token by token -/

/-- What the indented layout holds between two tokens. -/
structure State where
  /-- The text laid out so far. -/
  output : Buffer
  /-- The indentation of the line in hand. -/
  indent : IndentStack
  /-- The kind of the token before. -/
  prev : Option Kind
deriving DecidableEq, Repr

namespace State

/-- The layout before the first token. -/
def start : State :=
  ⟨.empty, .empty, none⟩

/-- The indentation of a value. A value behind a colon stays on the line of its key. -/
def lead (s : State) : String :=
  if s.prev = some .colon then "" else s.indent.current

/-- Lays out a token where one of kind `next` follows, if any. -/
def step (s : State) (t : Token) (next : Option Kind) : State :=
  match t.kind with
  | .braceClose | .bracketClose =>
    let indent := s.indent.leave
    let output := if s.prev.any (!·.isOpen) then s.output.add indent.current else s.output
    let output := output.add t.text
    let output := if next.any (· != .comma) then output.endLine else output
    { output, indent, prev := some t.kind }
  | .braceOpen | .bracketOpen =>
    let output := s.output.addPrefixed s.lead t.text
    let output := if next.any (!·.isClose) then output.endLine else output
    { output, indent := s.indent.enter, prev := some t.kind }
  | .colon => { s with output := (s.output.add t.text).add " ", prev := some t.kind }
  | .comma => { s with output := (s.output.add t.text).endLine, prev := some t.kind }
  | _ =>
    let output := s.output.addPrefixed s.lead t.text
    let output := if next = some .colon ∨ next = some .comma then output else output.endLine
    { s with output, prev := some t.kind }

/-- Lays out tokens one after another. -/
def run (s : State) : List Token → State
  | [] => s
  | t :: ts => (s.step t (ts.head?.map (·.kind))).run ts

end State

/-! ## Texts -/

/-- The tokens that both layouts keep. The empty text stands for `null`; a text of blanks
does not. -/
def tokens (text : String) : List Token :=
  Token.structural (if text = "" then "null" else text)

end Layout

/-- The text with one value a line, indented by four spaces a level. -/
def format (text : String) : String :=
  (Layout.State.start.run (Layout.tokens text)).output.text

/-- The text without anything between its tokens. -/
def minify (text : String) : String :=
  ((Layout.tokens text).foldl (fun output t => output.add t.text) Buffer.empty).text

end JsonText
