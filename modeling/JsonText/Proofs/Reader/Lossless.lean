-- SUMMARY: A reader yields the whole text, and what it holds at every point of its run.
import JsonText.Reader.Basic
import JsonText.Proofs.Token.Cutting
import JsonText.Proofs.Token.Spelling

/-!
# Readers lose nothing

The cursor of a reader may be ahead of the tokens it has yielded: while a gap
goes out, the lexeme behind the gap is cut already. The invariant counts both.
It says where the matcher is, too: at the cursor, until the last gap is cut, which
the matcher never passes. So every slice that a call takes begins at the cursor
and ends further on at the end of a character, and no call fails. A call keeps
the invariant, hence so does every run, and at the end of a run the cursor is at
the end of the text.
-/

namespace JsonText

open Token (Kind concat scan)

namespace Reader

/-! ## What a call does -/

section

variable {r : Reader}

theorem unknownUntil_of_slice {stop : Nat} {gap : List Char}
    (h : slice r.input r.cursor stop = .ok gap) :
    r.unknownUntil stop = .ok (.unknown gap, { r with cursor := stop }) := by
  rw [unknownUntil, h]
  rfl

theorem yield_of_gap {found : Match} {t : Token} {gap : List Char} (hlt : r.cursor < found.start)
    (hgap : slice r.input r.cursor found.start = .ok gap) :
    r.yield found t =
      .ok (.unknown gap, { r with cursor := found.stop, pending := some t }) := by
  have hend : r.gapEnd? (some found) = some found.start := gapEnd?_eq_some_iff.mpr ⟨rfl, hlt⟩
  rw [yield, hend]
  dsimp only
  rw [unknownUntil_of_slice hgap]
  rfl

theorem yield_of_le {found : Match} {t : Token} (hle : found.start ≤ r.cursor) :
    r.yield found t = .ok (t, { r with cursor := found.stop }) := by
  have hend : r.gapEnd? (some found) = none := if_neg (Nat.not_lt.mpr hle)
  rw [yield, hend]

theorem next_of_pending {t : Token} (hp : r.pending = some t) :
    r.next = .ok (some (t, { r with pending := none })) := by
  rw [next, hp]

section

variable {found : Match} {matcher : Matcher} {lexeme : List Char} (hp : r.pending = none)
  (hm : r.matcher.next? = some (found, matcher)) (hlex : found.lexeme = .ok lexeme)
include hp hm hlex

theorem next_of_match :
    r.next = some <$> { r with matcher }.yield found (.ofChars lexeme) := by
  rw [next]
  split
  · next h => rw [hp] at h; cases h
  · rw [hm]
    dsimp only
    rw [hlex]
    rfl

theorem next_of_match_of_lt {gap : List Char} (hlt : r.cursor < found.start)
    (hgap : slice r.input r.cursor found.start = .ok gap) :
    r.next = .ok (some (.unknown gap,
      { r with matcher, cursor := found.stop, pending := some (.ofChars lexeme) })) := by
  have hyield : { r with matcher }.yield found (.ofChars lexeme) = _ := yield_of_gap hlt hgap
  rw [next_of_match hp hm hlex, hyield]
  rfl

theorem next_of_match_of_le (hle : found.start ≤ r.cursor) :
    r.next = .ok (some (.ofChars lexeme, { r with matcher, cursor := found.stop })) := by
  have hyield : { r with matcher }.yield found (.ofChars lexeme) = _ := yield_of_le hle
  rw [next_of_match hp hm hlex, hyield]
  rfl

end

theorem next_of_rest {gap : List Char} (hp : r.pending = none) (hm : r.matcher.next? = none)
    (hlt : r.cursor < r.input.utf8ByteSize)
    (hgap : slice r.input r.cursor r.input.utf8ByteSize = .ok gap) :
    r.next = .ok (some (.unknown gap, { r with cursor := r.input.utf8ByteSize })) := by
  have hend : r.gapEnd? none = some r.input.utf8ByteSize := gapEnd?_eq_some_iff.mpr ⟨rfl, hlt⟩
  rw [next]
  split
  · next h => rw [hp] at h; cases h
  · rw [hm]
    dsimp only
    rw [hend]
    dsimp only
    rw [unknownUntil_of_slice hgap]
    rfl

theorem next_of_end (hp : r.pending = none) (hm : r.matcher.next? = none)
    (hle : r.input.utf8ByteSize ≤ r.cursor) : r.next = .ok none := by
  have hend : r.gapEnd? none = none := if_neg (Nat.not_lt.mpr hle)
  rw [next]
  split
  · next h => rw [hp] at h; cases h
  · rw [hm]
    dsimp only
    rw [hend]

end

/-! ## The invariant -/

/-- What a reader of `text` holds when it has yielded the tokens `ts` and `s` is not cut yet. -/
structure Invariant (text : String) (ts : List Token) (s : List Char) (r : Reader) : Prop where
  input : r.input = text
  haystack : r.matcher.haystack = text
  toList_eq : text.toList = (concat (ts ++ r.pending.toList)).toList ++ s
  cursor : r.cursor = byteLength (concat (ts ++ r.pending.toList)).toList
  position : r.matcher.position = r.cursor ∨ s = [] ∧ r.matcher.next? = none
  nonempty : ∀ u ∈ ts ++ r.pending.toList, u.text.toList ≠ []
  lexeme : ∀ u ∈ r.pending, u.kind ≠ .unknown

theorem invariant_ofString (text : String) : Invariant text [] text.toList (ofString text) where
  input := rfl
  haystack := rfl
  toList_eq := rfl
  cursor := rfl
  position := .inl rfl
  nonempty := by simp [ofString]
  lexeme := by simp [ofString]

/-- The gap before the next lexeme of `s`, or all of `s` if there is none. -/
def gapOf (s : List Char) : List Char :=
  (Lexeme.search s).gap

namespace Invariant

variable {text : String} {ts : List Token} {s : List Char} {r : Reader}

theorem cursor_le (h : Invariant text ts s r) : r.cursor ≤ text.utf8ByteSize := by
  have hlen := congrArg byteLength h.toList_eq
  rw [byteLength_toList, byteLength_append, ← h.cursor] at hlen
  omega

theorem cursor_add (h : Invariant text ts s r) : r.cursor + byteLength s = text.utf8ByteSize := by
  rw [h.cursor, ← byteLength_append, ← h.toList_eq, byteLength_toList]

/-- Whatever follows the cursor is a slice. -/
theorem slice_eq (h : Invariant text ts s r) {a b c : List Char} (hs : s = a ++ (b ++ c)) :
    slice text (r.cursor + byteLength a) (r.cursor + byteLength a + byteLength b) = .ok b := by
  have htext : text.toList = ((concat (ts ++ r.pending.toList)).toList ++ a) ++ (b ++ c) := by
    rw [List.append_assoc, ← hs, h.toList_eq]
  rw [h.cursor, ← byteLength_append]
  exact slice_eq_ok htext

/-- What is cut is the slice up to the cursor. -/
theorem slice_cursor (h : Invariant text ts s r) :
    slice text 0 r.cursor = .ok (concat (ts ++ r.pending.toList)).toList := by
  have hslice := slice_eq_ok (p := []) h.toList_eq
  rwa [byteLength_nil, Nat.zero_add, ← h.cursor] at hslice

theorem position_spec (h : Invariant text ts s r) :
    r.matcher.position = r.cursor ∨ r.cursor = text.utf8ByteSize ∧ r.matcher.next? = none := by
  refine h.position.imp_right ?_
  rintro ⟨rfl, hnone⟩
  exact ⟨h.cursor_add, hnone⟩

theorem slice_gap (h : Invariant text ts s r) {b c : List Char} (hs : s = b ++ c) :
    slice text r.cursor (r.cursor + byteLength b) = .ok b :=
  h.slice_eq (a := []) hs

/-- The matcher finds the next lexeme behind the cursor. -/
theorem next?_eq (h : Invariant text ts s r) :
    r.matcher.next? = (Lexeme.search s).hit.map fun hit =>
      let start := r.cursor + byteLength (gapOf s)
      let stop := start + byteLength hit.1
      (⟨text, start, stop⟩, ⟨text, stop⟩) := by
  rcases h.position with hpos | ⟨rfl, hnone⟩
  · rw [Matcher.next?_of_search (h.haystack ▸ h.toList_eq) (hpos.trans h.cursor), hpos, h.haystack]
    rfl
  · exact hnone

/-! ## A call keeps the invariant -/

theorem yieldPending (h : Invariant text ts s r) {t : Token} (hp : r.pending = some t) :
    Invariant text (ts ++ [t]) s { r with pending := none } := by
  have hts : ts ++ [t] ++ (none : Option Token).toList = ts ++ r.pending.toList := by simp [hp]
  exact ⟨h.input, h.haystack, hts ▸ h.toList_eq, hts ▸ h.cursor, h.position, hts ▸ h.nonempty,
    by simp⟩

end Invariant

/-- The tokens that a call cuts off spell the piece `p` of the text. The first of them is
yielded, and one behind it stays pending, which is a lexeme. -/
structure Piece (t : Token) (pending : Option Token) (p : List Char) : Prop where
  spelled : (concat (t :: pending.toList)).toList = p
  nonempty : ∀ u ∈ t :: pending.toList, u.text.toList ≠ []
  lexeme : ∀ u ∈ pending, u.kind ≠ .unknown

theorem piece_unknown {g : List Char} (hg : g ≠ []) : Piece (.unknown g) none g where
  spelled := by simp [Token.toList_concat]
  nonempty := List.forall_mem_singleton.mpr (by rwa [Token.toList_text_unknown])
  lexeme := by simp

theorem piece_ofChars {m : List Char} (hm : m ≠ []) : Piece (.ofChars m) none m where
  spelled := by simp [Token.toList_concat]
  nonempty := List.forall_mem_singleton.mpr (by rwa [Token.toList_text_ofChars])
  lexeme := by simp

theorem piece_unknown_ofChars {g m r : List Char} (hg : g ≠ [])
    (hm : Lexeme.read? (m ++ r) = some (m, r)) :
    Piece (.unknown g) (some (.ofChars m)) (g ++ m) where
  spelled := by simp [Token.toList_concat]
  nonempty := by
    refine List.forall_mem_cons.mpr ⟨by rwa [Token.toList_text_unknown], ?_⟩
    rintro u (_ | ⟨_, ⟨⟩⟩)
    rw [Token.toList_text_ofChars]
    exact (Lexeme.cuts_of_read? hm).2
  lexeme := by
    rintro u ⟨⟩
    exact Lexeme.kind_ne_unknown_of_read? hm

namespace Invariant

variable {text : String} {ts : List Token} {s : List Char} {r : Reader}

theorem cutPiece (h : Invariant text ts s r) (hp : r.pending = none) {t : Token} {r' : Reader}
    {p s' : List Char} (hs : s = p ++ s') (hpiece : Piece t r'.pending p)
    (hinput : r'.input = text) (hhaystack : r'.matcher.haystack = text)
    (hcursor : r'.cursor = r.cursor + byteLength p)
    (hposition : r'.matcher.position = r'.cursor ∨ s' = [] ∧ r'.matcher.next? = none) :
    Invariant text (ts ++ [t]) s' r' := by
  have hts : ts ++ [t] ++ r'.pending.toList = ts ++ (t :: r'.pending.toList) := by simp
  have hconcat : (concat (ts ++ [t] ++ r'.pending.toList)).toList =
      (concat (ts ++ r.pending.toList)).toList ++ p := by
    rw [hts, Token.concat_append, String.toList_append, hpiece.spelled, hp, Option.toList_none,
      List.append_nil]
  refine ⟨hinput, hhaystack, ?_, ?_, hposition, ?_, hpiece.lexeme⟩
  · rw [hconcat, List.append_assoc, ← hs, h.toList_eq]
  · rw [hconcat, byteLength_append, ← h.cursor, hcursor]
  · rw [hts]
    refine List.forall_mem_append.mpr ⟨fun u hu => ?_, hpiece.nonempty⟩
    exact h.nonempty u (List.mem_append_left _ hu)

theorem next_of_pending (h : Invariant text ts s r) {t : Token} (hp : r.pending = some t) :
    ∃ r', r.next = .ok (some (t, r')) ∧ r'.pending = none ∧ Invariant text (ts ++ [t]) s r' :=
  ⟨_, Reader.next_of_pending hp, rfl, h.yieldPending hp⟩

theorem next_of_nil (h : Invariant text ts [] r) (hp : r.pending = none) : r.next = .ok none := by
  have hend := h.cursor_add
  rw [byteLength_nil, Nat.add_zero, ← h.input] at hend
  exact next_of_end hp h.next?_eq hend.ge

/-- Without another lexeme the rest of the text is the last gap. -/
theorem next_of_no_lexeme (h : Invariant text ts s r) (hp : r.pending = none)
    (hhit : (Lexeme.search s).hit = none) (hne : s ≠ []) :
    ∃ r', r.next = .ok (some (.unknown s, r')) ∧ r'.pending = none ∧
      Invariant text (ts ++ [.unknown s]) [] r' := by
  have hm := h.next?_eq
  rw [hhit, Option.map_none] at hm
  have hend := h.cursor_add
  have hslice := h.slice_gap (List.append_nil s).symm
  rw [← h.input] at hend
  rw [hend, ← h.input] at hslice
  have hpos := byteLength_pos hne
  refine ⟨_, next_of_rest hp hm (by omega) hslice, hp, ?_⟩
  exact h.cutPiece hp (List.append_nil s).symm (hp ▸ piece_unknown hne) h.input h.haystack
    hend.symm (.inr ⟨rfl, hm⟩)

section

variable {m rest : List Char} (hhit : (Lexeme.search s).hit = some (m, rest))
include hhit

/-- The match that the matcher finds is the lexeme that a search from the cursor finds. -/
theorem exists_match (h : Invariant text ts s r) :
    ∃ found matcher, r.matcher.next? = some (found, matcher) ∧ found.lexeme = .ok m ∧
      found.start = r.cursor + byteLength (gapOf s) ∧
      found.stop = r.cursor + byteLength (gapOf s) + byteLength m ∧
      matcher = ⟨text, found.stop⟩ := by
  have hm := h.next?_eq
  rw [hhit, Option.map_some] at hm
  obtain ⟨hs, -, -⟩ := Lexeme.free_of_hit_eq_some hhit
  exact ⟨_, _, hm, h.slice_eq hs, rfl, rfl, rfl⟩

theorem next_of_lexeme (h : Invariant text ts s r) (hp : r.pending = none) (hg : gapOf s = []) :
    ∃ r', r.next = .ok (some (.ofChars m, r')) ∧ r'.pending = none ∧
      Invariant text (ts ++ [.ofChars m]) rest r' := by
  obtain ⟨found, matcher, hm, hlex, hstart, hstop, rfl⟩ := h.exists_match hhit
  obtain ⟨hs, -, hread⟩ := Lexeme.free_of_hit_eq_some hhit
  rw [hg, byteLength_nil, Nat.add_zero] at hstart hstop
  rw [← gapOf, hg, List.nil_append] at hs
  refine ⟨_, next_of_match_of_le hp hm hlex hstart.le, hp, ?_⟩
  exact h.cutPiece hp hs (hp ▸ piece_ofChars (Lexeme.cuts_of_read? hread).2) h.input rfl hstop
    (.inl rfl)

/-- A gap goes out first, with the cursor behind the lexeme already. -/
theorem next_of_gap (h : Invariant text ts s r) (hp : r.pending = none) (hg : gapOf s ≠ []) :
    ∃ r', r.next = .ok (some (.unknown (gapOf s), r')) ∧ r'.pending = some (.ofChars m) ∧
      Invariant text (ts ++ [.unknown (gapOf s)]) rest r' := by
  obtain ⟨found, matcher, hm, hlex, hstart, hstop, rfl⟩ := h.exists_match hhit
  obtain ⟨hs, -, hread⟩ := Lexeme.free_of_hit_eq_some hhit
  have hpos := byteLength_pos hg
  have hslice := h.slice_gap hs
  rw [← gapOf, ← hstart, ← h.input] at hslice
  rw [← gapOf, ← List.append_assoc] at hs
  refine ⟨_, next_of_match_of_lt hp hm hlex (by omega) hslice, rfl, ?_⟩
  exact h.cutPiece hp hs (piece_unknown_ofChars hg hread) h.input rfl
    (by rw [byteLength_append, ← Nat.add_assoc]; exact hstop) (.inl rfl)

end

/-- A call does not fail. It yields the first of the tokens to come and keeps the invariant, or
there are none. -/
theorem next_spec (h : Invariant text ts s r) :
    (r.next = .ok none ∧ r.pending.toList ++ scan s = []) ∨
      ∃ t r' s', r.next = .ok (some (t, r')) ∧ Invariant text (ts ++ [t]) s' r' ∧
        r.pending.toList ++ scan s = t :: (r'.pending.toList ++ scan s') := by
  cases hp : r.pending with
  | some t =>
      obtain ⟨r', hnext, hp', h'⟩ := h.next_of_pending hp
      exact .inr ⟨t, r', s, hnext, h', by rw [hp']; rfl⟩
  | none =>
      rw [Option.toList_none, List.nil_append, Token.scan_eq]
      cases hhit : (Lexeme.search s).hit with
      | none =>
          rw [Lexeme.gap_of_hit_eq_none hhit]
          cases s with
          | nil => exact .inl ⟨h.next_of_nil hp, rfl⟩
          | cons c s =>
              obtain ⟨r', hnext, hp', h'⟩ := h.next_of_no_lexeme hp hhit (List.cons_ne_nil c s)
              exact .inr ⟨_, r', [], hnext, h', by rw [hp', Token.scan_nil]; rfl⟩
      | some hit =>
          obtain ⟨m, rest⟩ := hit
          rw [← gapOf]
          cases hg : gapOf s with
          | nil =>
              obtain ⟨r', hnext, hp', h'⟩ := h.next_of_lexeme hhit hp hg
              exact .inr ⟨_, r', rest, hnext, h', by rw [hp']; rfl⟩
          | cons c g =>
              have hne : gapOf s ≠ [] := hg ▸ List.cons_ne_nil c g
              obtain ⟨r', hnext, hp', h'⟩ := h.next_of_gap hhit hp hne
              rw [hg] at hnext h'
              exact .inr ⟨_, r', rest, hnext, h', by rw [hp']; rfl⟩

/-- Where no token is to come, the reader has cut all of the text. -/
theorem ended (h : Invariant text ts s r) (hnil : r.pending.toList ++ scan s = []) :
    r.next = .ok none ∧ r.pending = none ∧ s = [] := by
  obtain ⟨hp, hs⟩ := List.append_eq_nil_iff.mp hnil
  have hp : r.pending = none := Option.toList_eq_nil_iff.mp hp
  obtain rfl : s = [] := by
    have hconcat := Token.concat_scan s
    rw [hs, Token.concat_nil] at hconcat
    exact (String.ofList_eq_empty_iff.mp hconcat.symm)
  exact ⟨h.next_of_nil hp, hp, rfl⟩

/-! ## Gaps as slices of the input -/

theorem gapEnd?_eq (h : Invariant text ts s r) :
    r.gapEnd? (r.matcher.next?.map Prod.fst) =
      if gapOf s = [] then none else some (r.cursor + byteLength (gapOf s)) := by
  have hstop : (r.matcher.next?.map Prod.fst).elim r.input.utf8ByteSize Match.start =
      r.cursor + byteLength (gapOf s) := by
    rw [h.next?_eq, h.input]
    cases hhit : (Lexeme.search s).hit with
    | none => rw [gapOf, Lexeme.gap_of_hit_eq_none hhit, h.cursor_add]; rfl
    | some hit => rfl
  rw [gapEnd?, hstop]
  by_cases hg : gapOf s = []
  · simp [hg]
  · have := byteLength_pos hg
    rw [if_neg hg, if_pos (by omega)]

/-- A gap is yielded as it stands in the text. -/
theorem exists_next_of_gap (h : Invariant text ts s r) (hp : r.pending = none)
    (hg : gapOf s ≠ []) : ∃ r', r.next = .ok (some (.unknown (gapOf s), r')) := by
  cases hhit : (Lexeme.search s).hit with
  | none =>
      have hs : gapOf s = s := Lexeme.gap_of_hit_eq_none hhit
      rw [hs] at hg ⊢
      obtain ⟨r', hnext, -⟩ := h.next_of_no_lexeme hp hhit hg
      exact ⟨r', hnext⟩
  | some hit =>
      obtain ⟨m, rest⟩ := hit
      obtain ⟨r', hnext, -⟩ := h.next_of_gap hhit hp hg
      exact ⟨r', hnext⟩

/-- Without a gap a lexeme is yielded. -/
theorem kind_ne_unknown_of_next (h : Invariant text ts s r) (hg : r.pending = none → gapOf s = [])
    {t : Token} {r' : Reader} (hn : r.next = .ok (some (t, r'))) : t.kind ≠ .unknown := by
  cases hp : r.pending with
  | some u =>
      rw [Reader.next_of_pending hp] at hn
      cases hn
      exact h.lexeme t hp
  | none =>
      cases hhit : (Lexeme.search s).hit with
      | none =>
          have hs : s = [] := Lexeme.eq_nil_of_search (hg hp) hhit
          subst hs
          rw [h.next_of_nil hp] at hn
          cases hn
      | some hit =>
          obtain ⟨m, rest⟩ := hit
          obtain ⟨r'', hnext, -⟩ := h.next_of_lexeme hhit hp (hg hp)
          rw [hnext] at hn
          cases hn
          obtain ⟨-, -, hread⟩ := Lexeme.free_of_hit_eq_some hhit
          exact Lexeme.kind_ne_unknown_of_read? hread

end Invariant

/-- The end of the gap that the next call takes as a slice, if it takes one. The slice begins at
the cursor. -/
def gapAhead? (r : Reader) : Option Nat :=
  if r.pending = none then r.gapEnd? (r.matcher.next?.map Prod.fst) else none

/-- The slices that are taken as gaps are parts of the text, and only they are yielded as
unknown. -/
theorem Invariant.gapAhead?_spec {text : String} {ts : List Token} {s : List Char} {r : Reader}
    (h : Invariant text ts s r) :
    (∀ stop, r.gapAhead? = some stop → r.cursor < stop ∧ stop ≤ text.utf8ByteSize ∧
        ∃ gap r', slice text r.cursor stop = .ok gap ∧ r.next = .ok (some (.unknown gap, r'))) ∧
      (r.gapAhead? = none → ∀ t r', r.next = .ok (some (t, r')) → t.kind ≠ .unknown) := by
  rw [gapAhead?, h.gapEnd?_eq]
  obtain ⟨q, hq⟩ : ∃ q, s = gapOf s ++ q := Lexeme.exists_eq_gap_append s
  have hend := h.cursor_add
  rw [hq, byteLength_append] at hend
  constructor
  · intro stop hstop
    obtain ⟨hp, hstop⟩ := Option.ite_none_right_eq_some.mp hstop
    obtain ⟨hg, hstop⟩ := Option.ite_none_left_eq_some.mp hstop
    obtain rfl := Option.some.inj hstop
    obtain ⟨r', hnext⟩ := h.exists_next_of_gap hp hg
    have hpos := byteLength_pos hg
    exact ⟨by omega, by omega, gapOf s, r', h.slice_gap hq, hnext⟩
  · intro hnone t r' hn
    refine h.kind_ne_unknown_of_next (fun hp => ?_) hn
    by_contra hg
    rw [if_pos hp, if_neg hg] at hnone
    cases hnone

/-! ## Runs -/

section

variable {r r' : Reader} {t : Token}

theorem take_of_next_eq_none (h : r.next = .ok none) (n : Nat) : r.take n = .ok ([], r) := by
  cases n with
  | zero => rfl
  | succ n => rw [take, take.go, h]; rfl

private theorem take_go_eq (taken : Array Token) (r : Reader) (n : Nat) :
    take.go taken r n = Prod.map (taken.toList ++ ·) id <$> r.take n := by
  suffices ∀ acc : Array Token, take.go (taken ++ acc) r n =
      Prod.map (taken.toList ++ ·) id <$> take.go acc r n by
    have hgo := this #[]
    rwa [Array.append_empty] at hgo
  induction n generalizing r with
  | zero => intro acc; simp [take.go]
  | succ n ih =>
      intro acc
      rw [take.go, take.go]
      cases r.next with
      | error e => rfl
      | ok p =>
          cases p with
          | none => simp [bind, Except.bind, pure, Except.pure]
          | some p => simp [bind, Except.bind, Array.push_append, ih]

theorem take_succ_of_next_eq_some (h : r.next = .ok (some (t, r'))) (n : Nat) :
    r.take (n + 1) = Prod.map (t :: ·) id <$> r'.take n := by
  rw [take, take.go, h]
  exact take_go_eq #[t] r' n

theorem find_of_next_eq_none {k : Kind} (h : r.next = .ok none) : r.find k = .ok (none, r) := by
  rw [find]
  split <;> simp_all

theorem find_of_next_eq_some {k : Kind} (h : r.next = .ok (some (t, r'))) :
    r.find k = if t.kind = k then .ok (some t, r') else r'.find k := by
  rw [find]
  split <;> simp_all

theorem fold_of_next_eq_none {α : Type} {f : α → Token → α} {a : α} (h : r.next = .ok none) :
    r.fold f a = .ok (a, r) := by
  rw [fold]
  split <;> simp_all

theorem fold_of_next_eq_some {α : Type} {f : α → Token → α} {a : α}
    (h : r.next = .ok (some (t, r'))) : r.fold f a = r'.fold f (f a t) := by
  rw [fold]
  split <;> simp_all

end

namespace Invariant

variable {text : String} {ts : List Token} {s : List Char} {r : Reader}

/-- Every run keeps the invariant. It is as long as asked for, unless it ends before. -/
theorem take_spec (h : Invariant text ts s r) (n : Nat) :
    ∃ us r' s', r.take n = .ok (us, r') ∧ Invariant text (ts ++ us) s' r' ∧
      r.pending.toList ++ scan s = us ++ (r'.pending.toList ++ scan s') ∧
      (us.length = n ∨ r'.next = .ok none) := by
  induction n generalizing ts s r with
  | zero => exact ⟨[], r, s, rfl, by rwa [List.append_nil], rfl, .inl rfl⟩
  | succ n ih =>
      rcases h.next_spec with ⟨hnext, -⟩ | ⟨t, r₁, s₁, hnext, h₁, hscan⟩
      · exact ⟨[], r, s, take_of_next_eq_none hnext _, by rwa [List.append_nil], rfl, .inr hnext⟩
      · obtain ⟨us, r', s', htake, h', hscan', hlen⟩ := ih h₁
        rw [← List.append_cons] at h'
        refine ⟨t :: us, r', s', ?_, h', ?_, hlen.imp_left (congrArg Nat.succ)⟩
        · rw [take_succ_of_next_eq_some hnext, htake]
          rfl
        · rw [hscan, hscan', List.cons_append]

/-- Folding goes over all tokens to come. -/
theorem fold_spec {α : Type} (h : Invariant text ts s r) (f : α → Token → α) (a : α) :
    ∃ r' , r.fold f a = .ok ((r.pending.toList ++ scan s).foldl f a, r') ∧
      Invariant text (ts ++ (r.pending.toList ++ scan s)) [] r' ∧ r'.pending = none := by
  generalize hus : r.pending.toList ++ scan s = us
  induction us generalizing ts s r a with
  | nil =>
      obtain ⟨hnext, hp, rfl⟩ := h.ended hus
      exact ⟨r, fold_of_next_eq_none hnext, by rwa [List.append_nil], hp⟩
  | cons t us ih =>
      rcases h.next_spec with ⟨-, hnil⟩ | ⟨t', r₁, s₁, hnext, h₁, hscan⟩
      · rw [hus] at hnil; cases hnil
      · rw [hus] at hscan
        obtain ⟨rfl, htail⟩ := List.cons.inj hscan
        obtain ⟨r', hfold, h', hp⟩ := ih h₁ (f a t) htail.symm
        rw [← List.append_cons] at h'
        exact ⟨r', by rw [fold_of_next_eq_some hnext, hfold]; rfl, h', hp⟩

/-- The tokens that are cut take up characters of the text. -/
theorem length_le (h : Invariant text ts s r) : ts.length ≤ text.length := by
  have hcut := Token.length_le_length_concat h.nonempty
  have htext := congrArg List.length h.toList_eq
  rw [List.length_append, String.length_toList] at htext
  rw [List.length_append, ← String.length_toList] at hcut
  omega

end Invariant

/-- The tokens of a text are what a reader of it yields. -/
theorem toList_ofString (text : String) :
    (ofString text).toList = .ok (Token.tokenize text) := by
  obtain ⟨r, hfold, -⟩ := (invariant_ofString text).fold_spec Array.push #[]
  rw [toList, hfold, Token.tokenize_nothing]
  simp [ofString]

/-- As many calls as the text has characters come to the end. -/
theorem take_spec_of_length_le {text : String} {n : Nat} {ts : List Token} {r : Reader}
    (htake : (ofString text).take n = .ok (ts, r)) (hn : text.length ≤ n) :
    r.next = .ok none ∧ ts = Token.tokenize text := by
  obtain ⟨us, r', s, htake', hinv, hscan, hlen⟩ := (invariant_ofString text).take_spec n
  obtain ⟨rfl, rfl⟩ := Prod.mk.inj (Except.ok.inj (htake.symm.trans htake'))
  rw [List.nil_append] at hinv
  rcases hinv.next_spec with ⟨hend, hnil⟩ | ⟨t, r', s', hnext, hinv', -⟩
  · rw [hnil, List.append_nil] at hscan
    exact ⟨hend, by rw [Token.tokenize_nothing, ← hscan]; rfl⟩
  · -- One more token would be longer than the text allows.
    have hmore := hinv'.length_le
    rw [List.length_append, List.length_singleton] at hmore
    rcases hlen with hlen | hend
    · omega
    · rw [hend] at hnext
      cases hnext

end Reader

/-- Whatever has been asked of a reader of a text, no call has failed and the next one will not.
The tokens yielded and the pending one are the slice of the text up to the cursor, where the
matcher is, too, unless all of the text is cut. The gap ahead of the cursor is a slice within the
text, and only such slices are yielded as unknown. No token is empty. When as many tokens have
been asked for as the text has characters, the reader is at its end, and the tokens yielded are
those of the text, which together are the text. -/
theorem take_lossless (text : String) (n : Nat) :
    ∃ ts r, (Reader.ofString text).take n = .ok (ts, r) ∧
      slice text 0 r.cursor = .ok (concat (ts ++ r.pending.toList)).toList ∧
      r.cursor ≤ text.utf8ByteSize ∧
      (r.matcher.position = r.cursor ∨
        r.cursor = text.utf8ByteSize ∧ r.matcher.next? = none) ∧
      (∀ stop, r.gapAhead? = some stop → r.cursor < stop ∧ stop ≤ text.utf8ByteSize ∧
        ∃ gap r', slice text r.cursor stop = .ok gap ∧ r.next = .ok (some (.unknown gap, r'))) ∧
      (r.gapAhead? = none → ∀ t r', r.next = .ok (some (t, r')) → t.kind ≠ .unknown) ∧
      (∃ step, r.next = .ok step) ∧
      (∀ t ∈ ts, t.text ≠ "") ∧
      ts.length ≤ text.length ∧
      (text.length ≤ n →
        r.next = .ok none ∧ ts = Token.tokenize text ∧ concat ts = text) ∧
      (Reader.ofString text).toList = .ok (Token.tokenize text) := by
  obtain ⟨ts, r, s, htake, hinv, -, -⟩ := (Reader.invariant_ofString text).take_spec n
  rw [List.nil_append] at hinv
  obtain ⟨hgap, hlexeme⟩ := hinv.gapAhead?_spec
  refine ⟨ts, r, htake, hinv.slice_cursor, hinv.cursor_le, hinv.position_spec, hgap, hlexeme, ?_,
    ?_, hinv.length_le, fun hn => ?_, Reader.toList_ofString text⟩
  · rcases hinv.next_spec with ⟨hend, -⟩ | ⟨t, r', s', hnext, -⟩
    · exact ⟨none, hend⟩
    · exact ⟨some (t, r'), hnext⟩
  · intro t ht hempty
    exact hinv.nonempty t (List.mem_append_left _ ht) (by rw [hempty]; rfl)
  · obtain ⟨hend, rfl⟩ := Reader.take_spec_of_length_le htake hn
    refine ⟨hend, rfl, ?_⟩
    rw [Token.tokenize_nothing, Token.concat_scan, String.ofList_toList]

/-- While the gap goes out, the cursor is behind the number that is still pending, four bytes into
the text. -/
example : (Reader.ofString "-é1x").take 1 =
    .ok ([⟨.unknown, "-é"⟩], ⟨"-é1x", ⟨"-é1x", 4⟩, 4, some ⟨.number, "1"⟩⟩) := by
  decide

end JsonText
