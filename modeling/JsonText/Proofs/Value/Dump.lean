-- SUMMARY: Reading a written list of tokens back, and that it determines the text it came from.
import JsonText.Proofs.Document.Parsing
import JsonText.Proofs.Token.Cutting
import JsonText.Proofs.Value.Writing

/-!
# Token dumps

A list of tokens is written as an array of objects, each with the name of a kind
and a text. `readDump?` takes such a dump for any JSON: it parses it and looks
for the two fields of each object, whatever way their names and contents are
escaped. Every list of tokens is so read back, and since the tokens of a text
make up the text, no two texts have the same dump.
-/

namespace JsonText

open Token (tokenize)

/-! ## Reading dumps -/

namespace Document

/-- The text for which a string stands. -/
def text? : Document → Option String
  | string q => Escape.unquote? q
  | _ => none

/-- The field of an object with a name. -/
def field? (name : String) : Document → Option Document
  | object ms => (ms.find? fun m => Escape.unquote? m.1 = some name).map (·.2)
  | _ => none

end Document

/-- The token that an object with a kind and a text stands for. -/
def Token.ofDocument? (d : Document) : Option Token := do
  let name ← (← d.field? "kind").text?
  let text ← (← d.field? "text").text?
  let k ← Kind.ofName? name
  return ⟨k, text⟩

/-- The tokens that an array of such objects stands for. -/
def Token.listOfDocument? : Document → Option (List Token)
  | .array ds => ds.mapM ofDocument?
  | _ => none

/-- The tokens of which a text is the dump. -/
def readDump? (text : String) : Option (List Token) := do
  let d ← Document.parse? text
  Token.listOfDocument? d

/-! ## Tokens as values -/

/-- Kinds and tokens are presented in the way that is derived from their types: a kind is a case
without content, and a token is a record of its two fields. -/
structure TokenEncoding.IsDerived (e : TokenEncoding) : Prop where
  kind (k : Token.Kind) : e.kind k = .unitVariant k.name
  token (t : Token) : e.token t = .struct [("kind", e.kind t.kind), ("text", .str t.text)]
  tokens (ts : List Token) : e.tokens ts = .seq (ts.map e.token)

theorem TokenEncoding.derived_isDerived : derived.IsDerived where
  kind _ := rfl
  token _ := rfl
  tokens _ := rfl

/-! ## Dumps -/

section Dumps

variable {w : Writer} {e : TokenEncoding}

/-- The tree of a token is read as the token. -/
theorem exists_document_token (hw : w.Documented) (he : e.IsDerived) (t : Token) :
    ∃ d, w.document (e.token t) = .ok d ∧ Token.ofDocument? d = some t := by
  obtain ⟨kindKey, hkindKey, hkindName⟩ := hw.str "kind"
  obtain ⟨textKey, htextKey, htextName⟩ := hw.str "text"
  obtain ⟨name, hname, hnameText⟩ := hw.str t.kind.name
  obtain ⟨text, htext, htextText⟩ := hw.str t.text
  refine ⟨.object [(kindKey, .string name), (textKey, .string text)], ?_, ?_⟩
  · rw [he.token, he.kind, Writer.document, Writer.fields, Writer.fields, Writer.fields,
      Writer.document, Writer.document, hw.key_text rfl, hw.key_text rfl,
      hw.text (v := .unitVariant _) rfl, hkindKey, htextKey, hname, htext]
    rfl
  · have hkind : (Document.object [(kindKey, .string name), (textKey, .string text)]).field?
        "kind" = some (.string name) := by
      simp [Document.field?, hkindName.unquote?_eq]
    have htext : (Document.object [(kindKey, .string name), (textKey, .string text)]).field?
        "text" = some (.string text) := by
      simp [Document.field?, hkindName.unquote?_eq, htextName.unquote?_eq]
    rw [Token.ofDocument?, hkind, htext]
    simp [Document.text?, hnameText.unquote?_eq, htextText.unquote?_eq]

theorem exists_items_tokens (hw : w.Documented) (he : e.IsDerived) (ts : List Token) :
    ∃ ds, w.items (ts.map e.token) = .ok ds ∧ ds.mapM Token.ofDocument? = some ts := by
  induction ts with
  | nil => exact ⟨[], rfl, rfl⟩
  | cons t ts ih =>
      obtain ⟨d, hd, ht⟩ := exists_document_token hw he t
      obtain ⟨ds, hds, hts⟩ := ih
      refine ⟨d :: ds, ?_, ?_⟩
      · rw [List.map_cons, Writer.items, hd, hds]
        rfl
      · rw [List.mapM_cons, ht, hts]
        rfl

/-- Every list of tokens can be written, and it is read back. -/
theorem exists_serialize_tokens (hw : w.Documented) (he : e.IsDerived) (ts : List Token) :
    ∃ dump, serialize w (e.tokens ts) = .ok dump ∧ readDump? dump = some ts := by
  obtain ⟨ds, hds, hts⟩ := exists_items_tokens hw he ts
  have hdocument : w.document (e.tokens ts) = .ok (.array ds) := by
    rw [he.tokens, Writer.document, hds, Except.map_ok]
  have htext := (hw.wellSpelled_of_document hdocument).isText_pretty
  refine ⟨_, hw.serialize_of_document hdocument, ?_⟩
  rw [readDump?, htext.parse?_eq, Option.bind_eq_bind, Option.bind_some, Token.listOfDocument?, hts]

/-- The dump of the tokens of a text is read back as these tokens, whose texts make up the text.
So the dumps of two texts are the same only if the texts are. -/
theorem readDump?_serialize (hw : w.Documented) (he : e.IsDerived) (x : String) :
    (∃ dump, serialize w (e.tokens (tokenize x)) = .ok dump ∧
      readDump? dump = some (tokenize x) ∧ (readDump? dump).map Token.concat = some x) ∧
    ∀ y, serialize w (e.tokens (tokenize x)) = serialize w (e.tokens (tokenize y)) ↔ x = y := by
  have hconcat : ∀ z, Token.concat (tokenize z) = z := by
    intro z
    rw [Token.tokenize_nothing, Token.concat_scan, String.ofList_toList]
  obtain ⟨dump, hdump, hread⟩ := exists_serialize_tokens hw he (tokenize x)
  refine ⟨⟨dump, hdump, hread, ?_⟩, fun y => ⟨fun h => ?_, fun h => by rw [h]⟩⟩
  · rw [hread, Option.map_some, hconcat]
  · obtain ⟨dump', hdump', hread'⟩ := exists_serialize_tokens hw he (tokenize y)
    obtain rfl : dump = dump' := by
      rw [hdump, hdump'] at h
      exact Except.ok.inj h
    have htokens : tokenize x = tokenize y := by
      rw [hread] at hread'
      exact Option.some.inj hread'
    rw [← hconcat x, ← hconcat y, htokens]

/-- A string with a backslash, whose quotes and backslashes are escaped in the dump. -/
theorem readDump?_backslash :
    serialize .standard (TokenEncoding.derived.tokens (tokenize "\"\\\\\"")) =
        .ok ("[\n    \x7b\n        \"kind\": \"String\",\n" ++
          "        \"text\": \"\\\"\\\\\\\\\\\"\"\n    \x7d\n]") ∧
      readDump? ("[\n    \x7b\n        \"kind\": \"String\",\n" ++
        "        \"text\": \"\\\"\\\\\\\\\\\"\"\n    \x7d\n]") = some [⟨.string, "\"\\\\\""⟩] := by
  have htokens : tokenize "\"\\\\\"" = [⟨.string, "\"\\\\\""⟩] := Token.tokenize_string (by decide)
  have hdocument : Writer.standard.document (TokenEncoding.derived.tokens
      (tokenize "\"\\\\\"")) = .ok (.array [.object [("\"kind\"", .string "\"String\""),
        ("\"text\"", .string "\"\\\"\\\\\\\\\\\"\"")]]) := by
    rw [htokens]
    rfl
  have hserialize := Writer.standard_documented.serialize_of_document hdocument
  obtain ⟨⟨dump, hdump, hread, -⟩, -⟩ :=
    readDump?_serialize Writer.standard_documented TokenEncoding.derived_isDerived "\"\\\\\""
  obtain rfl := Except.ok.inj (hserialize.symm.trans hdump)
  exact ⟨hserialize, hread.trans (congrArg some htokens)⟩

end Dumps

end JsonText
