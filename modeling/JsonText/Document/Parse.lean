-- SUMMARY: Building a document from a token list.
import JsonText.Document.Basic
import JsonText.Document.Escape
import JsonText.Token.Scan

/-!
# Parsing documents

A document is built by a machine that takes one token at a time. Its state says
what may come next and holds the containers that are still open, so no token is
looked at twice and nesting needs no recursion.
-/

namespace JsonText

/-- The place of a value that is being read inside an open container. What the container
holds already is in reverse order. -/
inductive Document.Place where
  /-- The value is an item of an array. -/
  | item (items : List Document)
  /-- The value is the member with the given key of an object. -/
  | member (members : List (String × Document)) (key : String)
deriving Repr

/-- What has been read of a document, and what may come next. The places lead from the
innermost open container to the outermost one. -/
inductive Document.Progress where
  /-- A value must come. -/
  | value (places : List Place)
  /-- An array has just been opened. -/
  | arrayOpened (places : List Place)
  /-- An object has just been opened. -/
  | objectOpened (places : List Place)
  /-- A key must come. -/
  | key (members : List (String × Document)) (places : List Place)
  /-- A colon must come. -/
  | colon (members : List (String × Document)) (key : String) (places : List Place)
  /-- An item of an array has ended. -/
  | itemEnded (items : List Document) (places : List Place)
  /-- A member of an object has ended. -/
  | memberEnded (members : List (String × Document)) (places : List Place)
  /-- The whole document has ended. -/
  | ended (d : Document)
deriving Repr

namespace Document.Progress

/-- A value has ended at its place. -/
def endValue (d : Document) : List Place → Progress
  | [] => ended d
  | .item ds :: ps => itemEnded (d :: ds) ps
  | .member ms k :: ps => memberEnded ((k, d) :: ms) ps

/-- A token at which a value begins. -/
def beginValue? (t : Token) (ps : List Place) : Option Progress :=
  match t.kind with
  | .nullWord => some (endValue .null ps)
  | .trueWord => some (endValue (.bool true) ps)
  | .falseWord => some (endValue (.bool false) ps)
  | .number => some (endValue (.number t.text) ps)
  | .string => if Escape.isString t.text then some (endValue (.string t.text) ps) else none
  | .bracketOpen => some (arrayOpened ps)
  | .braceOpen => some (objectOpened ps)
  | _ => none

/-- A token that is a key. -/
def takeKey? (ms : List (String × Document)) (t : Token) (ps : List Place) : Option Progress :=
  if t.kind = .string ∧ Escape.isString t.text then some (colon ms t.text ps) else none

/-- The progress with one more token, if the token may come. -/
def step? : Progress → Token → Option Progress
  | value ps, t => beginValue? t ps
  | arrayOpened ps, t =>
    if t.kind = .bracketClose then some (endValue (.array []) ps)
    else beginValue? t (.item [] :: ps)
  | objectOpened ps, t =>
    if t.kind = .braceClose then some (endValue (.object []) ps) else takeKey? [] t ps
  | key ms ps, t => takeKey? ms t ps
  | colon ms k ps, t => if t.kind = .colon then some (value (.member ms k :: ps)) else none
  | itemEnded ds ps, t =>
    match t.kind with
    | .comma => some (value (.item ds :: ps))
    | .bracketClose => some (endValue (.array ds.reverse) ps)
    | _ => none
  | memberEnded ms ps, t =>
    match t.kind with
    | .comma => some (key ms ps)
    | .braceClose => some (endValue (.object ms.reverse) ps)
    | _ => none
  | ended _, _ => none

/-- The document, if it has ended. -/
def document? : Progress → Option Document
  | ended d => some d
  | _ => none

end Document.Progress

namespace Document

/-- The document that the tokens spell. -/
def ofTokens? (ts : List Token) : Option Document := do
  let p ← ts.foldlM Progress.step? (.value [])
  p.document?

/-- The document that a text spells. Blanks may stand between tokens, and nothing else. -/
def parse? (text : String) : Option Document :=
  ofTokens? (Token.tokenize text { dropWhitespace := true })

end Document

end JsonText
