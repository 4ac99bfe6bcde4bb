-- SUMMARY: Reading a string in quotes with escapes.

/-!
# Escapes

`unquote?` reads any quoted string, with every escape that JSON knows. What it
does is stated on lists of characters: `decode?` works on the text between the
quotes.
-/

namespace JsonText.Escape

/-! ## Reading one character -/

/-- The value of a hexadecimal digit in either case. -/
def hexDigit? (c : Char) : Option Nat :=
  if '0' ≤ c ∧ c ≤ '9' then some (c.toNat - '0'.toNat)
  else if 'a' ≤ c ∧ c ≤ 'f' then some (c.toNat - 'a'.toNat + 10)
  else if 'A' ≤ c ∧ c ≤ 'F' then some (c.toNat - 'A'.toNat + 10)
  else none

/-- A code in four hexadecimal digits, and what follows it. -/
def hexCode? : List Char → Option (Nat × List Char)
  | a :: b :: c :: d :: r => do
    let a ← hexDigit? a
    let b ← hexDigit? b
    let c ← hexDigit? c
    let d ← hexDigit? d
    return (((a * 16 + b) * 16 + c) * 16 + d, r)
  | _ => none

/-- The character that a letter behind a backslash stands for. -/
def ofLetter? : Char → Option Char
  | '"' => some '"'
  | '\\' => some '\\'
  | '/' => some '/'
  | 'b' => some '\x08'
  | 'f' => some '\x0c'
  | 'n' => some '\n'
  | 'r' => some '\r'
  | 't' => some '\t'
  | _ => none

/-- The code is the first half of a surrogate pair. -/
def isHighHalf (n : Nat) : Bool := 0xD800 ≤ n && n < 0xDC00

/-- The code is the second half of a surrogate pair. -/
def isLowHalf (n : Nat) : Bool := 0xDC00 ≤ n && n < 0xE000

/-- The character behind a backslash and the letter `u`, and what follows it. The halves
of a surrogate pair stand for one character together and for none alone. -/
def readCode? (s : List Char) : Option (Char × List Char) := do
  let (n, r) ← hexCode? s
  if isHighHalf n then
    match r with
    | '\\' :: 'u' :: r =>
      let (m, r) ← hexCode? r
      if isLowHalf m then
        return (Char.ofNat (0x10000 + (n - 0xD800) * 0x400 + (m - 0xDC00)), r)
      else none
    | _ => none
  else if isLowHalf n then none
  else return (Char.ofNat n, r)

/-- The character that the head of `s` stands for, and what follows it. -/
def readChar? : List Char → Option (Char × List Char)
  | [] => none
  | '\\' :: 'u' :: r => readCode? r
  | '\\' :: c :: r => (ofLetter? c).map (·, r)
  | c :: r => if c = '"' ∨ c = '\\' ∨ c.toNat < 0x20 then none else some (c, r)

theorem length_lt_of_hexCode? {s r : List Char} {n : Nat} (h : hexCode? s = some (n, r)) :
    r.length < s.length := by
  unfold hexCode? at h
  split at h
  · simp only [Option.bind_eq_bind, Option.bind_eq_some_iff, Option.pure_def, Option.some.injEq,
      Prod.mk.injEq] at h
    obtain ⟨-, -, -, -, -, -, -, -, -, rfl⟩ := h
    simp only [List.length_cons]
    omega
  · simp at h

theorem length_lt_of_readCode? {s r : List Char} {c : Char} (h : readCode? s = some (c, r)) :
    r.length < s.length := by
  unfold readCode? at h
  cases hx : hexCode? s with
  | none => simp [hx] at h
  | some p =>
    obtain ⟨n, r₁⟩ := p
    have h₁ := length_lt_of_hexCode? hx
    simp only [hx, Option.bind_eq_bind, Option.bind_some] at h
    split at h
    · split at h
      · next r₂ =>
        cases hy : hexCode? r₂ with
        | none => simp [hy] at h
        | some p =>
          obtain ⟨m, r₃⟩ := p
          have h₂ := length_lt_of_hexCode? hy
          simp only [hy, Option.bind_some] at h
          split at h
          · simp only [Option.pure_def, Option.some.injEq, Prod.mk.injEq] at h
            obtain ⟨-, rfl⟩ := h
            simp only [List.length_cons] at h₁
            omega
          · simp at h
      · simp at h
    · split at h
      · simp at h
      · simp only [Option.pure_def, Option.some.injEq, Prod.mk.injEq] at h
        obtain ⟨-, rfl⟩ := h
        exact h₁

theorem length_lt_of_readChar? {s r : List Char} {c : Char} (h : readChar? s = some (c, r)) :
    r.length < s.length := by
  unfold readChar? at h
  split at h
  · simp at h
  · have := length_lt_of_readCode? h
    simp only [List.length_cons]
    omega
  · simp only [Option.map_eq_some_iff, Prod.mk.injEq] at h
    obtain ⟨-, -, -, rfl⟩ := h
    simp only [List.length_cons]
    omega
  · split at h
    · simp at h
    · simp only [Option.some.injEq, Prod.mk.injEq] at h
      obtain ⟨-, rfl⟩ := h
      simp

/-! ## Well-formed strings -/

/-- The text may stand between the quotes of a JSON string: it holds no quote and no
control character, and each backslash begins an escape. Half a surrogate pair is
well-formed, although it stands for no character. -/
def isBody : List Char → Bool
  | [] => true
  | '\\' :: 'u' :: a :: b :: c :: d :: r =>
    (hexDigit? a).isSome && (hexDigit? b).isSome && (hexDigit? c).isSome && (hexDigit? d).isSome
      && isBody r
  | '\\' :: c :: r => (ofLetter? c).isSome && isBody r
  | c :: r => c != '"' && c != '\\' && decide (0x20 ≤ c.toNat) && isBody r

/-- The text between the quotes of `s`, if it stands in quotes. -/
def body? (s : String) : Option (List Char) :=
  match s.toList with
  | '"' :: r => if r.getLast? = some '"' then some r.dropLast else none
  | _ => none

/-- The text is a well-formed JSON string with its quotes. -/
def isString (s : String) : Bool :=
  (body? s).any isBody

/-! ## Reading a string -/

/-- The text that stands between quotes as `s`. -/
def decode? (s : List Char) : Option (List Char) :=
  go #[] s
where
  /-- Reads on behind the characters already read. -/
  go (read : Array Char) (s : List Char) : Option (List Char) :=
    if s = [] then some read.toList
    else
      match _h : readChar? s with
      | none => none
      | some (c, r) => go (read.push c) r
  termination_by s.length
  decreasing_by exact length_lt_of_readChar? _h

/-- The string that a text in quotes stands for. -/
def unquote? (s : String) : Option String :=
  (body? s).bind decode? |>.map String.ofList

@[simp] theorem decode?_nil : decode? [] = some [] := by
  simp [decode?, decode?.go]

private theorem decode?_go_eq (read : Array Char) (s : List Char) :
    decode?.go read s = (decode? s).map (read.toList ++ ·) := by
  suffices ∀ more : Array Char, decode?.go (read ++ more) s =
      (decode?.go more s).map (read.toList ++ ·) by
    have hgo := this #[]
    rwa [Array.append_empty] at hgo
  intro more
  fun_induction decode?.go more s with
  | case1 more => rw [decode?.go, if_pos rfl]; simp
  | case2 more s hne h => rw [decode?.go, if_neg hne]; split <;> simp_all
  | case3 more s hne c r h ih =>
    rw [← Array.push_append] at ih
    rw [decode?.go, if_neg hne]
    split <;> simp_all

/-- Reading goes character by character. -/
theorem decode?_of_readChar?_eq_some {s r : List Char} {c : Char} (h : readChar? s = some (c, r)) :
    decode? s = (decode? r).map (c :: ·) := by
  have hs : s ≠ [] := by rintro rfl; simp [readChar?] at h
  rw [decode?, decode?.go, if_neg hs]
  split
  · simp_all
  · next c' r' h' =>
    obtain ⟨rfl, rfl⟩ : c = c' ∧ r = r' := by simpa [h] using h'
    rw [decode?_go_eq]
    simp

end JsonText.Escape
