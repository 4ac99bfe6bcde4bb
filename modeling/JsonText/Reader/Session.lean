-- SUMMARY: Requests to a reader, and sessions over several readers.
import JsonText.Reader.Basic

/-!
# Reading sessions

A request moves one reader and is answered from the tokens it passes. A session
holds several readers and directs each request to one of them.
-/

namespace JsonText

/-- What a reader can be asked for. -/
inductive Reader.Request where
  /-- The next token. -/
  | next
  /-- The token behind the next `n` tokens. -/
  | nth (n : Nat)
  /-- The next tokens, at most `n` of them. -/
  | take (n : Nat)
  /-- The next token of kind `k`. -/
  | find (k : Token.Kind)
  /-- All tokens to come. -/
  | rest
  /-- How many tokens there are to come. -/
  | count
  /-- The last of all tokens to come. -/
  | last
  /-- Back to the start of the text. -/
  | restart
deriving DecidableEq, Repr

/-- What a reader answers. -/
inductive Reader.Reply where
  /-- A token, or nothing where there is none. -/
  | token (t : Option Token)
  /-- A run of tokens. -/
  | tokens (ts : List Token)
  /-- A number of tokens. -/
  | count (n : Nat)
  /-- The reader is back at the start of its text. -/
  | restarted
deriving DecidableEq, Repr

/-- The answer to a request, and the reader behind the tokens that it passed. -/
def Reader.answer (r : Reader) : Request → Except SliceError (Reply × Reader)
  | .next => nextOrEnd r
  | .nth n => do nextOrEnd (← r.advance n)
  | .take n => Prod.map .tokens id <$> r.take n
  | .find k => Prod.map .token id <$> r.find k
  | .rest => Prod.map (fun ts => .tokens ts.toList) id <$> r.fold Array.push #[]
  | .count => Prod.map .count id <$> r.fold (fun n _ => n + 1) 0
  | .last => Prod.map .token id <$> r.fold (fun _ t => some t) none
  | .restart => .ok (.restarted, r.restart)
where
  /-- The next token; a reader at its end stays there. -/
  nextOrEnd (r : Reader) : Except SliceError (Reply × Reader) := do
    match ← r.next with
    | none => return (.token none, r)
    | some (t, r') => return (.token t, r')

/-! ## Several readers -/

/-- Readers that are asked in any order. -/
structure Reader.Session where
  /-- The readers; a request names one by its place in this list. -/
  readers : List Reader
deriving DecidableEq, Repr

namespace Reader.Session

/-- A session with one reader at the start of each text. -/
def ofTexts (texts : List String) : Session :=
  ⟨texts.map ofString⟩

/-- The answer of reader `i`, which alone is moved; nothing if there is no such reader, or if it
fails. -/
def ask? (s : Session) (i : Nat) (q : Request) : Option (Reply × Session) := do
  let r ← s.readers[i]?
  let (a, r') ← (r.answer q).toOption
  return (a, ⟨s.readers.set i r'⟩)

/-- The answers to a list of requests, each with the number of its reader. -/
def run? (s : Session) : List (Nat × Request) → Option (List Reply)
  | [] => some []
  | (i, q) :: qs => do
    let (a, s') ← s.ask? i q
    let as ← s'.run? qs
    return a :: as

end Reader.Session

end JsonText
