-- SUMMARY: Dividing a token stream at a boundary, with the text behind the boundary in view.
import JsonText.Proofs.Token.Cutting
import JsonText.Proofs.Token.Spelling

/-!
# Token boundaries

A stream can be divided between any two tokens, and each part is derived on its
own. The part behind the boundary is the whole stream of the text there. The
part before it is not: its lexemes were cut with the text behind the boundary in
view, so that text is a parameter of `CutBefore`.
-/

namespace JsonText.Token

open Lexeme

/-- The tokens `ts` of a text `p` that ends at a token boundary, where the text `q` follows. -/
inductive CutBefore (q : List Char) : List Char → List Token → Prop where
  | gap {g : List Char} (hg : Free g q) : CutBefore q g (ofGap g)
  | lexeme {g m r : List Char} {ts : List Token} (hg : Free g (m ++ (r ++ q)))
      (hm : read? (m ++ (r ++ q)) = some (m, r ++ q)) (hr : CutBefore q r ts) :
      CutBefore q (g ++ (m ++ r)) (ofGap g ++ ofChars m :: ts)

theorem CutBefore.flatMap_eq {q p : List Char} {ts : List Token} (h : CutBefore q p ts) :
    (ts.flatMap fun t => t.text.toList) = p := by
  induction h with
  | gap _ => exact flatMap_ofGap _
  | lexeme _ _ _ ih =>
      rw [List.flatMap_append, flatMap_ofGap, List.flatMap_cons, ih, toList_text_ofChars]

/-- The end of a text is a boundary. -/
theorem Cut.cutBefore {s : List Char} {ts : List Token} (h : Cut s ts) : CutBefore [] s ts := by
  induction h with
  | gap hg => exact .gap hg
  | @lexeme g m r _ hg hm _ ih =>
      rw [← List.append_nil r] at hg hm
      exact .lexeme hg hm ih

/-! ## Division -/

/-- There is no boundary inside a gap. -/
theorem eq_nil_of_ofGap_eq_append {g : List Char} {ts us : List Token}
    (h : ofGap g = ts ++ us) : ts = [] ∨ us = [] := by
  cases g with
  | nil => exact .inl (List.append_eq_nil_iff.mp h.symm).1
  | cons c g =>
      rcases List.append_eq_singleton_iff.mp h.symm with ⟨hts, -⟩ | ⟨-, hus⟩
      · exact .inl hts
      · exact .inr hus

/-- Every boundary of a stream divides its derivation. -/
theorem Cut.split {s : List Char} {ts us : List Token} (h : Cut s (ts ++ us)) :
    ∃ p q, s = p ++ q ∧ CutBefore q p ts ∧ Cut q us := by
  generalize hvs : ts ++ us = vs at h
  induction h generalizing ts with
  | @gap g hg =>
      rcases eq_nil_of_ofGap_eq_append hvs.symm with rfl | rfl
      · obtain rfl : us = ofGap g := hvs
        exact ⟨[], g, rfl, .gap trivial, .gap hg⟩
      · obtain rfl : ts = ofGap g := by simpa using hvs
        exact ⟨g, [], (List.append_nil g).symm, .gap hg, .gap trivial⟩
  | @lexeme g m r vs hg hm hr ih =>
      have hcut : Cut (m ++ r) (ofChars m :: vs) := .lexeme (g := []) trivial hm hr
      -- The boundary is behind the lexeme, behind the gap, or before the gap.
      rcases List.append_eq_append_iff.mp hvs.symm with ⟨ws, rfl, hws⟩ | ⟨ws, hts, rfl⟩
      · cases ws with
        | nil =>
            obtain rfl : ofChars m :: vs = us := hws
            rw [List.append_nil]
            exact ⟨g, m ++ r, rfl, .gap hg, hcut⟩
        | cons w ws =>
            obtain ⟨rfl, hvs'⟩ := List.cons.inj hws
            obtain ⟨p, q, rfl, hp, hq⟩ := ih hvs'.symm
            exact ⟨g ++ (m ++ p), q, by simp, .lexeme hg hm hp, hq⟩
      · rcases eq_nil_of_ofGap_eq_append hts with rfl | rfl
        · obtain rfl : ofGap g = ws := hts
          exact ⟨[], g ++ (m ++ r), rfl, .gap trivial, .lexeme hg hm hr⟩
        · obtain rfl : ofGap g = ts := by simpa using hts
          exact ⟨g, m ++ r, rfl, .gap hg, hcut⟩

/-! ## Behind a boundary -/

theorem search_of_free {g s : List Char} (h : Free g s) :
    search (g ++ s) = ⟨g ++ (search s).gap, (search s).hit⟩ := by
  induction g with
  | nil => rfl
  | cons c g ih => rw [List.cons_append, search_cons_of_read?_eq_none h.1, ih h.2, List.cons_append]

/-- A text has one stream. -/
theorem Cut.eq_scan {s : List Char} {ts : List Token} (h : Cut s ts) : ts = scan s := by
  induction h with
  | @gap g hg =>
      have hsearch := search_of_free hg
      rw [search_nil, List.append_nil] at hsearch
      rw [scan_eq, hsearch]
      exact (List.append_nil _).symm
  | @lexeme g m r ts hg hm _ ih =>
      rw [scan_eq, search_of_free hg, search_of_read?_eq_some hm, List.append_nil, ih]

variable {s : List Char} {t : Token} {ts : List Token}

/-- A token that is not unknown is the lexeme that is read where it stands. -/
theorem Cut.read?_eq (h : Cut s (t :: ts)) (hk : t.kind ≠ .unknown) :
    read? s = some (t.text.toList, ts.flatMap fun u => u.text.toList) := by
  generalize hvs : t :: ts = vs at h
  cases h with
  | gap _ =>
      have ht : t ∈ ofGap s := by rw [← hvs]; exact List.mem_cons_self
      exact absurd (kind_of_mem_ofGap ht) hk
  | @lexeme g m r _ _ hm hr =>
      cases g with
      | nil =>
          obtain ⟨rfl, rfl⟩ := List.cons.inj hvs
          rw [toList_text_ofChars, hr.flatMap_eq]
          exact hm
      | cons c g =>
          obtain ⟨rfl, -⟩ := List.cons.inj hvs
          exact absurd (kind_unknown _) hk

/-- No lexeme begins in an unknown token. -/
theorem Cut.free (h : Cut s (t :: ts)) (hk : t.kind = .unknown) :
    Free t.text.toList (ts.flatMap fun u => u.text.toList) := by
  generalize hvs : t :: ts = vs at h
  cases h with
  | gap hg =>
      cases s with
      | nil => exact absurd hvs (List.cons_ne_nil _ _)
      | cons c g =>
          obtain ⟨rfl, rfl⟩ := List.cons.inj hvs
          rw [toList_text_unknown]
          exact hg
  | @lexeme g m r _ hg hm hr =>
      cases g with
      | nil =>
          obtain ⟨rfl, -⟩ := List.cons.inj hvs
          exact absurd hk (kind_ne_unknown_of_read? hm)
      | cons c g =>
          obtain ⟨rfl, rfl⟩ := List.cons.inj hvs
          have hrest := (Cut.lexeme (g := []) trivial hm hr).flatMap_eq
          rw [toList_text_unknown]
          exact hrest ▸ hg

end JsonText.Token
