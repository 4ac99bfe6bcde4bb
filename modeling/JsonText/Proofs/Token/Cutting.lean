-- SUMMARY: How a scan cuts up a text, as a relation; the texts of the tokens are the text again.
import Mathlib.Data.List.Flatten
import JsonText.Token.Scan

/-!
# Cutting up a text

`Cut s ts` derives the tokens of `s` one lexeme after the other. Each step says
that no lexeme begins in the gap it passes, with all of the text behind the gap
in view. What holds of every scan is proved by induction on such a derivation.
-/

namespace JsonText

/-- No lexeme begins in `g` where `r` follows it. -/
def Lexeme.Free : List Char → List Char → Prop
  | [], _ => True
  | c :: g, r => read? (c :: (g ++ r)) = none ∧ Free g r

namespace Lexeme

theorem free_of_hit_eq_none {s : List Char} (h : (search s).hit = none) : Free s [] := by
  induction s with
  | nil => trivial
  | cons c s ih =>
      cases hr : read? (c :: s) with
      | some p => rw [search_of_read?_eq_some hr] at h; simp at h
      | none =>
          rw [search_cons_of_read?_eq_none hr] at h
          exact ⟨by rwa [List.append_nil], ih h⟩

/-- The lexeme that a search finds is the first one. -/
theorem free_of_hit_eq_some {s m r : List Char} (h : (search s).hit = some (m, r)) :
    s = (search s).gap ++ (m ++ r) ∧ Free (search s).gap (m ++ r) ∧
      read? (m ++ r) = some (m, r) := by
  induction s with
  | nil => simp at h
  | cons c s ih =>
      cases hr : read? (c :: s) with
      | some p =>
          rw [search_of_read?_eq_some hr] at h ⊢
          obtain rfl : p = (m, r) := Option.some.inj h
          have happ := (cuts_of_read? hr).1
          exact ⟨happ.symm, trivial, by rw [happ, hr]⟩
      | none =>
          rw [search_cons_of_read?_eq_none hr] at h ⊢
          obtain ⟨happ, hfree, hread⟩ := ih h
          refine ⟨by rw [List.cons_append, ← happ], ⟨?_, hfree⟩, hread⟩
          rw [← happ, hr]

end Lexeme

namespace Token

/-- The tokens `ts` of a text: the gap before each lexeme, if there is one, the lexeme, and
what is left behind the last lexeme. -/
inductive Cut : List Char → List Token → Prop where
  | gap {g : List Char} (hg : Lexeme.Free g []) : Cut g (ofGap g)
  | lexeme {g m r : List Char} {ts : List Token} (hg : Lexeme.Free g (m ++ r))
      (hm : Lexeme.read? (m ++ r) = some (m, r)) (hr : Cut r ts) :
      Cut (g ++ (m ++ r)) (ofGap g ++ ofChars m :: ts)

/-- Scanning derives the tokens. -/
theorem cut_scan (s : List Char) : Cut s (scan s) := by
  -- The scan goes from lexeme to lexeme, whatever has been found before.
  induction (#[] : Array Token), s using scan.go.induct with
  | case1 _ s h =>
      rw [scan_eq, h, Lexeme.gap_of_hit_eq_none h, List.append_nil]
      exact .gap (Lexeme.free_of_hit_eq_none h)
  | case2 _ s m r h ih =>
      obtain ⟨happ, hfree, hread⟩ := Lexeme.free_of_hit_eq_some h
      have hcut := Cut.lexeme hfree hread ih
      rw [scan_eq, h]
      rwa [← happ] at hcut

/-! ## Nothing is lost -/

theorem toList_concat (ts : List Token) :
    (concat ts).toList = ts.flatMap fun t => t.text.toList := by
  rw [concat, String.toList_join, List.flatMap_map]

@[simp] theorem concat_nil : concat [] = "" := rfl

theorem concat_cons (t : Token) (ts : List Token) : concat (t :: ts) = t.text ++ concat ts := by
  rw [concat, List.map_cons, String.join_cons, concat]

theorem concat_append (ts us : List Token) : concat (ts ++ us) = concat ts ++ concat us := by
  rw [concat, List.map_append, String.join_append, concat, concat]

theorem flatMap_ofGap (g : List Char) : ((ofGap g).flatMap fun t => t.text.toList) = g := by
  cases g with
  | nil => rfl
  | cons c g => simp [ofGap]

theorem Cut.flatMap_eq {s : List Char} {ts : List Token} (h : Cut s ts) :
    (ts.flatMap fun t => t.text.toList) = s := by
  induction h with
  | gap _ => exact flatMap_ofGap _
  | lexeme _ _ _ ih =>
      rw [List.flatMap_append, flatMap_ofGap, List.flatMap_cons, ih, toList_text_ofChars]

/-- The texts of the tokens are the text again. -/
theorem concat_scan (s : List Char) : concat (scan s) = String.ofList s := by
  rw [← String.toList_inj, toList_concat, (cut_scan s).flatMap_eq, String.toList_ofList]

theorem mem_ofGap {g : List Char} {t : Token} : t ∈ ofGap g ↔ g ≠ [] ∧ t = unknown g := by
  cases g with
  | nil => simp [ofGap]
  | cons c g => simp [ofGap]

theorem kind_of_mem_ofGap {g : List Char} {t : Token} (h : t ∈ ofGap g) : t.kind = .unknown := by
  rw [(mem_ofGap.mp h).2, kind_unknown]

/-- What holds of every gap and of every lexeme holds of every token. -/
theorem Cut.forall_mem {P : Token → Prop} {s : List Char} {ts : List Token} (h : Cut s ts)
    (hgap : ∀ g, g ≠ [] → P (unknown g))
    (hlex : ∀ m r, Lexeme.read? (m ++ r) = some (m, r) → P (ofChars m)) : ∀ t ∈ ts, P t := by
  have hofGap : ∀ g, ∀ t ∈ ofGap g, P t := by
    intro g t ht
    obtain ⟨hne, rfl⟩ := mem_ofGap.mp ht
    exact hgap g hne
  induction h with
  | gap _ => exact hofGap _
  | lexeme _ hm _ ih =>
      exact List.forall_mem_append.mpr ⟨hofGap _, List.forall_mem_cons.mpr ⟨hlex _ _ hm, ih⟩⟩

/-- No token is empty. -/
theorem Cut.text_ne_empty {s : List Char} {ts : List Token} (h : Cut s ts) :
    ∀ t ∈ ts, t.text.toList ≠ [] := by
  refine h.forall_mem ?_ ?_
  · intro g hne
    rwa [toList_text_unknown]
  · intro m r hm
    rw [toList_text_ofChars]
    exact (Lexeme.cuts_of_read? hm).2

/-- Tokens that are not empty take a character each. -/
theorem length_le_length_concat {ts : List Token} (h : ∀ t ∈ ts, t.text.toList ≠ []) :
    ts.length ≤ (concat ts).length := by
  rw [← String.length_toList, toList_concat]
  induction ts with
  | nil => exact Nat.le_refl _
  | cons t ts ih =>
      have hpos := List.length_pos_iff.mpr (h t List.mem_cons_self)
      have htail := ih fun u hu => h u (List.mem_cons_of_mem _ hu)
      rw [List.flatMap_cons, List.length_append, List.length_cons]
      omega

/-! ## Leaving tokens out -/

theorem tokenize_nothing (text : String) : tokenize text = scan text.toList :=
  List.filter_eq_self.mpr fun t _ => Filter.keeps_nothing t.kind

theorem length_concat_filter_le (keep : Token → Bool) (ts : List Token) :
    (concat (ts.filter keep)).length ≤ (concat ts).length := by
  rw [← String.length_toList, ← String.length_toList, toList_concat, toList_concat]
  exact (List.filter_sublist.flatMap _).length_le

/-- A filter that loses no text loses no token. -/
theorem filter_eq_self_of_concat_eq {keep : Token → Bool} {ts : List Token}
    (hne : ∀ t ∈ ts, t.text.toList ≠ []) (h : concat (ts.filter keep) = concat ts) :
    ts.filter keep = ts := by
  induction ts with
  | nil => rfl
  | cons t ts ih =>
      have htail : ∀ u ∈ ts, u.text.toList ≠ [] := fun u hu => hne u (List.mem_cons_of_mem _ hu)
      rw [concat_cons, List.filter_cons] at h
      split at h
      · next hk =>
        rw [concat_cons] at h
        rw [List.filter_cons_of_pos hk, ih htail ((String.append_right_inj _).mp h)]
      · -- The text of the token that is left out is missing.
        have hlen := congrArg String.length h
        have hle := length_concat_filter_le keep ts
        have hpos : 0 < t.text.length := by
          rw [← String.length_toList]
          exact List.length_pos_iff.mpr (hne t List.mem_cons_self)
        rw [String.length_append] at hlen
        omega

/-- A text made of its structural tokens alone has no other tokens. -/
theorem scan_eq_structural {text : String} (h : concat (structural text) = text) :
    scan text.toList = structural text := by
  have hscan : concat (scan text.toList) = text := by
    rw [concat_scan, String.ofList_toList]
  exact (filter_eq_self_of_concat_eq (cut_scan _).text_ne_empty (h.trans hscan.symm)).symm

end Token

end JsonText
