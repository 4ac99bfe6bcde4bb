-- SUMMARY: Parsing any text of a document gives the document.
import JsonText.Document.Parse
import JsonText.Proofs.Document.Spelling

/-!
# Parsing the text of a document

A value may stand wherever the parser waits for one, and what the parser knows
behind it does not depend on how the value is built. So the tokens of a document
are followed through the parser by induction on the document, with the open
containers and the tokens behind it left general.
-/

namespace JsonText.Document

namespace Progress

/-- Behind an opened array, any token but a closer begins the first item. -/
theorem foldlM_arrayOpened {u : Token} (hu : u.kind.isClose ≠ true) (ps : List Place)
    (ts : List Token) :
    (u :: ts).foldlM step? (arrayOpened ps) = (u :: ts).foldlM step? (value (.item [] :: ps)) := by
  have hclose : u.kind ≠ .bracketClose := by
    intro hk
    rw [hk] at hu
    exact hu rfl
  simp only [List.foldlM_cons, step?, if_neg hclose]

/-- Behind an opened object, a string is the first key. -/
theorem foldlM_objectOpened (k : String) (ps : List Place) (ts : List Token) :
    (⟨.string, k⟩ :: ts).foldlM step? (objectOpened ps) =
      (⟨.string, k⟩ :: ts).foldlM step? (key [] ps) := by
  rw [List.foldlM_cons, List.foldlM_cons, step?, if_neg nofun, step?]

/-- A string ends a value. -/
theorem foldlM_string {s : String} (h : Escape.isString s = true) (ps : List Place)
    (ts : List Token) :
    (⟨.string, s⟩ :: ts).foldlM step? (value ps) = ts.foldlM step? (endValue (.string s) ps) := by
  rw [List.foldlM_cons, step?, beginValue?, if_pos h]
  rfl

/-- Behind a key and its colon the value of the member must come. -/
theorem foldlM_key {k : String} (h : Escape.isString k = true) (ms : List (String × Document))
    (ps : List Place) (ts : List Token) :
    (⟨.string, k⟩ :: ⟨.colon, ":"⟩ :: ts).foldlM step? (key ms ps) =
      ts.foldlM step? (value (.member ms k :: ps)) := by
  rw [List.foldlM_cons, step?, takeKey?, if_pos ⟨rfl, h⟩]
  rfl

mutual

/-- Where a value must come, the tokens of a document end it. -/
theorem foldlM_tokens_append : ∀ {d : Document}, d.WellSpelled →
    ∀ (ps : List Place) (ts : List Token),
      (d.tokens ++ ts).foldlM step? (value ps) = ts.foldlM step? (endValue d ps)
  | .null, _, _, _ => rfl
  | .bool true, _, _, _ => rfl
  | .bool false, _, _, _ => rfl
  | .number _, _, _, _ => rfl
  | .string _, h, ps, ts => foldlM_string h ps ts
  | .array [], _, _, _ => rfl
  | .array (d :: ds), h, ps, ts => by
      have hd := foldlM_tokens_append h.1 (.item [] :: ps)
        (itemTokens ds ++ ⟨.bracketClose, "]"⟩ :: ts)
      have hds := foldlM_itemTokens_append h.2 [d] ps (⟨.bracketClose, "]"⟩ :: ts)
      have hclose : endValue (.array (ds.reverse ++ [d]).reverse) ps =
          endValue (.array (d :: ds)) ps := by
        simp
      -- The first item does not begin with the closer that would end the array at once.
      obtain ⟨u, us, hus, hu⟩ := d.exists_tokens_append
        (itemTokens ds ++ ⟨.bracketClose, "]"⟩ :: ts)
      calc ((array (d :: ds)).tokens ++ ts).foldlM step? (value ps)
        _ = (u :: us).foldlM step? (arrayOpened ps) := by
          rw [tokens_array_cons_append, hus]
          rfl
        _ = (⟨.bracketClose, "]"⟩ :: ts).foldlM step? (itemEnded (ds.reverse ++ [d]) ps) := by
          rw [foldlM_arrayOpened hu, ← hus, hd, ← hds]
          rfl
        _ = ts.foldlM step? (endValue (.array (d :: ds)) ps) := by
          rw [← hclose]
          rfl
  | .object [], _, _, _ => rfl
  | .object ((k, d) :: ms), h, ps, ts => by
      have hd := foldlM_tokens_append h.2.1 (.member [] k :: ps)
        (memberTokens ms ++ ⟨.braceClose, "\x7d"⟩ :: ts)
      have hms := foldlM_memberTokens_append h.2.2 [(k, d)] ps (⟨.braceClose, "\x7d"⟩ :: ts)
      have hclose : endValue (.object (ms.reverse ++ [(k, d)]).reverse) ps =
          endValue (.object ((k, d) :: ms)) ps := by
        simp
      calc ((object ((k, d) :: ms)).tokens ++ ts).foldlM step? (value ps)
        _ = (d.tokens ++ (memberTokens ms ++ ⟨.braceClose, "\x7d"⟩ :: ts)).foldlM step?
              (value (.member [] k :: ps)) := by
          rw [tokens_object_cons_append, ← foldlM_key h.1, ← foldlM_objectOpened]
          rfl
        _ = (⟨.braceClose, "\x7d"⟩ :: ts).foldlM step?
              (memberEnded (ms.reverse ++ [(k, d)]) ps) := by
          rw [hd, ← hms]
          rfl
        _ = ts.foldlM step? (endValue (.object ((k, d) :: ms)) ps) := by
          rw [← hclose]
          rfl

/-- Behind an item, the tokens of further items add these to the array. -/
theorem foldlM_itemTokens_append : ∀ {ds : List Document}, WellSpelledItems ds →
    ∀ (es : List Document) (ps : List Place) (ts : List Token),
      (itemTokens ds ++ ts).foldlM step? (itemEnded es ps) =
        ts.foldlM step? (itemEnded (ds.reverse ++ es) ps)
  | [], _, _, _, _ => rfl
  | d :: ds, h, es, ps, ts => by
      have hd := foldlM_tokens_append h.1 (.item es :: ps) (itemTokens ds ++ ts)
      have hds := foldlM_itemTokens_append h.2 (d :: es) ps ts
      rw [itemTokens_cons_append, List.reverse_cons, List.append_assoc, List.singleton_append,
        ← hds]
      exact hd

/-- Behind a member, the tokens of further members add these to the object. -/
theorem foldlM_memberTokens_append : ∀ {ms : List (String × Document)}, WellSpelledMembers ms →
    ∀ (ns : List (String × Document)) (ps : List Place) (ts : List Token),
      (memberTokens ms ++ ts).foldlM step? (memberEnded ns ps) =
        ts.foldlM step? (memberEnded (ms.reverse ++ ns) ps)
  | [], _, _, _, _ => rfl
  | (k, d) :: ms, h, ns, ps, ts => by
      have hd := foldlM_tokens_append h.2.1 (.member ns k :: ps) (memberTokens ms ++ ts)
      have hms := foldlM_memberTokens_append h.2.2 ((k, d) :: ns) ps ts
      have hkey := foldlM_key h.1 ns ps (d.tokens ++ (memberTokens ms ++ ts))
      rw [memberTokens_cons_append, List.reverse_cons, List.append_assoc, List.singleton_append,
        ← hms]
      exact hkey.trans hd

end

end Progress

/-- The tokens of a document are read as the document. -/
theorem ofTokens?_tokens {d : Document} (h : d.WellSpelled) : ofTokens? d.tokens = some d := by
  have hd := Progress.foldlM_tokens_append h [] []
  rw [List.append_nil] at hd
  rw [ofTokens?, hd]
  rfl

theorem IsText.parse?_eq {d : Document} {text : String} (h : d.IsText text) :
    parse? text = some d := by
  rw [parse?, Token.tokenize_dropWhitespace, h.spaced.visible_of_sound (sound_tokens h.wellSpelled),
    ofTokens?_tokens h.wellSpelled]

end JsonText.Document
