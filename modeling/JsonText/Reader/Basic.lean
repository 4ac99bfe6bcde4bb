-- SUMMARY: A reader that yields the tokens of a text one at a time.
import JsonText.Except
import JsonText.Reader.Matcher
import JsonText.Token.Basic

/-!
# Readers

A reader goes through the lexemes that its matcher finds and yields what stands
between them as unknown tokens. It keeps a cursor of its own, the offset up to
which the text is cut into tokens, and takes each gap as the slice from there to
the lexeme behind it. Such a slice need not exist, so a call can fail. While a
gap goes out, the lexeme behind it is held back as the pending token. Readers
are plain values, so two of them never share a position.
-/

namespace JsonText

/-- A position in a text that is being cut into tokens. -/
structure Reader where
  /-- The text being read. -/
  input : String
  /-- The search for the lexemes of the text. -/
  matcher : Matcher
  /-- The offset up to which the text is cut. -/
  cursor : Nat
  /-- A token that is cut but not yet yielded. -/
  pending : Option Token
deriving DecidableEq, Repr

namespace Reader

/-- The reader at the start of `text`. -/
def ofString (text : String) : Reader where
  input := text
  matcher := .ofString text
  cursor := 0
  pending := none

/-- The reader back at the start of its text. -/
def restart (r : Reader) : Reader :=
  ofString r.input

/-- The text from the cursor to the offset `stop` as an unknown token, and the reader behind it. -/
def unknownUntil (r : Reader) (stop : Nat) : Except SliceError (Token × Reader) :=
  (fun gap => (.unknown gap, { r with cursor := stop })) <$> slice r.input r.cursor stop

/-- Where the gap at the cursor ends: at the lexeme found, or at the end of the text if none is
left. Nothing if there is no gap. -/
def gapEnd? (r : Reader) (found : Option Match) : Option Nat :=
  let stop := found.elim r.input.utf8ByteSize Match.start
  if r.cursor < stop then some stop else none

/-- The token `t` of the lexeme found, unless a gap is before it. Then that goes out first. -/
def yield (r : Reader) (found : Match) (t : Token) : Except SliceError (Token × Reader) :=
  match r.gapEnd? (some found) with
  | some stop =>
    (fun (gap, r) => (gap, { r with cursor := found.stop, pending := some t })) <$>
      r.unknownUntil stop
  | none => .ok (t, { r with cursor := found.stop })

/-- The next token and the reader behind it, or nothing at the end of the text. -/
def next (r : Reader) : Except SliceError (Option (Token × Reader)) :=
  match r.pending with
  | some t => .ok (some (t, { r with pending := none }))
  | none =>
    match r.matcher.next? with
    | some (found, matcher) => do
      let lexeme ← found.lexeme
      some <$> { r with matcher }.yield found (.ofChars lexeme)
    | none =>
      match r.gapEnd? none with
      | some stop => some <$> r.unknownUntil stop
      | none => .ok none

theorem gapEnd?_eq_some_iff {r : Reader} {found : Option Match} {stop : Nat} :
    r.gapEnd? found = some stop ↔
      stop = found.elim r.input.utf8ByteSize Match.start ∧ r.cursor < stop := by
  rw [gapEnd?]
  constructor
  · intro h
    obtain ⟨hlt, hstop⟩ := Option.ite_none_right_eq_some.mp h
    obtain rfl := Option.some.inj hstop
    exact ⟨rfl, hlt⟩
  · rintro ⟨rfl, hlt⟩
    exact if_pos hlt

/-! ## Progress -/

theorem eq_of_unknownUntil {r r' : Reader} {stop : Nat} {t : Token}
    (h : r.unknownUntil stop = .ok (t, r')) : r' = { r with cursor := stop } := by
  obtain ⟨gap, -, heq⟩ := Except.exists_of_map_eq_ok h
  exact (Prod.mk.inj heq).2.symm

theorem matcher_of_yield {r r' : Reader} {found : Match} {t u : Token}
    (h : r.yield found t = .ok (u, r')) : r'.matcher = r.matcher ∧ r'.input = r.input := by
  unfold yield at h
  split at h
  · obtain ⟨⟨gap, r₁⟩, hgap, heq⟩ := Except.exists_of_map_eq_ok h
    obtain rfl := eq_of_unknownUntil hgap
    cases heq
    exact ⟨rfl, rfl⟩
  · cases h
    exact ⟨rfl, rfl⟩

/-- A call takes the pending token away, or moves the matcher, or ends with the last gap. -/
theorem next_cases {r r' : Reader} {t : Token} (h : r.next = .ok (some (t, r'))) :
    (r.pending = some t ∧ r' = { r with pending := none }) ∨
      (∃ found, r.matcher.next? = some (found, r'.matcher) ∧ r'.input = r.input) ∨
      (r.cursor < r.input.utf8ByteSize ∧ r' = { r with cursor := r.input.utf8ByteSize }) := by
  unfold next at h
  split at h
  · next u hp =>
    cases h
    exact .inl ⟨hp, rfl⟩
  · split at h
    · next found matcher hm =>
      obtain ⟨lexeme, -, h⟩ := Except.exists_of_bind_eq_ok h
      obtain ⟨p, hp, heq⟩ := Except.exists_of_map_eq_ok h
      cases heq
      obtain ⟨hmatcher, hinput⟩ := matcher_of_yield hp
      exact .inr (.inl ⟨found, hmatcher ▸ hm, hinput⟩)
    · split at h
      · next stop hstop =>
        obtain ⟨p, hp, heq⟩ := Except.exists_of_map_eq_ok h
        cases heq
        obtain ⟨rfl, hlt⟩ := gapEnd?_eq_some_iff.mp hstop
        exact .inr (.inr ⟨hlt, eq_of_unknownUntil hp⟩)
      · cases h

/-- Falls with every call. A lexeme that is found leaves at most a token pending and a gap at the
end of the text to come, so it counts for more than both. -/
def bound (r : Reader) : Nat :=
  3 * (r.matcher.haystack.utf8ByteSize - r.matcher.position) +
    (if r.pending.isSome then 1 else 0) + (if r.cursor < r.input.utf8ByteSize then 1 else 0)

theorem bound_lt_of_next {r r' : Reader} {t : Token} (h : r.next = .ok (some (t, r'))) :
    r'.bound < r.bound := by
  rcases next_cases h with ⟨hp, rfl⟩ | ⟨found, hm, -⟩ | ⟨hlt, rfl⟩
  · simp [bound, hp]
  · obtain ⟨hhaystack, hlt, hle⟩ := Matcher.position_lt_of_next? hm
    have hpending : (if r'.pending.isSome then 1 else 0) ≤ 1 := by split <;> omega
    have hcursor : (if r'.cursor < r'.input.utf8ByteSize then 1 else 0) ≤ 1 := by split <;> omega
    rw [bound, bound, hhaystack]
    omega
  · simp [bound, hlt]

/-! ## Reading several tokens -/

/-- The reader behind the next `n` tokens, or at the end if there are fewer. -/
def advance (r : Reader) : Nat → Except SliceError Reader
  | 0 => .ok r
  | n + 1 => do
    match ← r.next with
    | none => return r
    | some (_, r') => r'.advance n

/-- The next tokens, at most `n` of them, and the reader behind them. -/
def take (r : Reader) (n : Nat) : Except SliceError (List Token × Reader) :=
  go #[] r n
where
  /-- Reads on behind the tokens already taken. -/
  go (taken : Array Token) (r : Reader) : Nat → Except SliceError (List Token × Reader)
    | 0 => .ok (taken.toList, r)
    | n + 1 => do
      match ← r.next with
      | none => return (taken.toList, r)
      | some (t, r') => go (taken.push t) r' n

/-- The next token of kind `k`, if there is one, and the reader behind it or at the end. -/
def find (k : Token.Kind) (r : Reader) : Except SliceError (Option Token × Reader) :=
  match _h : r.next with
  | .error e => .error e
  | .ok none => .ok (none, r)
  | .ok (some (t, r')) => if t.kind = k then .ok (some t, r') else r'.find k
termination_by r.bound
decreasing_by exact bound_lt_of_next _h

/-- Folds `f` over all tokens to come; leaves the reader at the end. -/
def fold {α : Type} (f : α → Token → α) (a : α) (r : Reader) : Except SliceError (α × Reader) :=
  match _h : r.next with
  | .error e => .error e
  | .ok none => .ok (a, r)
  | .ok (some (t, r')) => r'.fold f (f a t)
termination_by r.bound
decreasing_by exact bound_lt_of_next _h

/-- All tokens to come. -/
def toList (r : Reader) : Except SliceError (List Token) :=
  (fun (ts, _) => ts.toList) <$> r.fold Array.push #[]

end Reader

end JsonText
