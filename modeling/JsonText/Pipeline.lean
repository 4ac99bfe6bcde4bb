-- SUMMARY: Passes that turn one text into another, and pipelines of them.
import JsonText.Token.Scan
import JsonText.Value.Serialize

/-!
# Pipelines

A pass maps a text to a text. A pipeline runs passes one after another and
keeps every text on the way. The passes that serialize hand a text or its tokens
over to a writer.
-/

namespace JsonText

/-- A step from one text to the next. -/
inductive Pass where
  | format
  | minify
  /-- All tokens, one after another. -/
  | concat
  /-- The unknown tokens, one after another. -/
  | unknowns
  /-- The text itself as a string value. -/
  | serialize
  /-- The text itself as a string value, minified. -/
  | serializeMinified
  /-- The list of all tokens. -/
  | dumpTokens
  /-- The list of the tokens with structure or values, minified. -/
  | dumpStructural
deriving DecidableEq, Repr

namespace Pass

/-- Every pass, once. -/
def all : List Pass :=
  [format, minify, concat, unknowns, serialize, serializeMinified, dumpTokens, dumpStructural]

/-- The name under which a pipeline lists the pass. -/
def name : Pass → String
  | format => "format"
  | minify => "minify"
  | concat => "concat"
  | unknowns => "unknowns"
  | serialize => "serialize"
  | serializeMinified => "serialize_minified"
  | dumpTokens => "dump_tokens"
  | dumpStructural => "dump_structural"

/-- The pass with the given name. -/
def ofName? (s : String) : Option Pass :=
  all.find? fun p => p.name == s

variable (w : Writer) (encoding : TokenEncoding)

/-- The text behind a pass. -/
def run (text : String) : Pass → Except FormatterError String
  | format => .ok (JsonText.format text)
  | minify => .ok (JsonText.minify text)
  | concat => .ok (Token.concat (Token.tokenize text))
  | unknowns => .ok (Token.concat ((Token.tokenize text).filter (·.kind = .unknown)))
  | serialize => JsonText.serialize w (.str text)
  | serializeMinified => JsonText.serializeMinified w (.str text)
  | dumpTokens => JsonText.serialize w (encoding.tokens (Token.tokenize text))
  | dumpStructural => JsonText.serializeMinified w (encoding.tokens (Token.structural text))

/-- The texts behind each pass of a pipeline. -/
def runAll (text : String) : List Pass → Except FormatterError (List String)
  | [] => .ok []
  | p :: ps => do
    let next ← p.run w encoding text
    let later ← runAll next ps
    return next :: later

end Pass

end JsonText
