-- SUMMARY: Reading a lexeme at the head of a text, and searching for the next one.
import JsonText.Lexeme.Number
import JsonText.Lexeme.Quoted

/-!
# The next lexeme

`read?` tries the five classes of lexemes in a fixed order at the head of a
text. `search` moves through the text to the first position where `read?`
succeeds; what it passes on the way is the gap before the lexeme.
-/

namespace JsonText.Lexeme

/-- The lexeme at the head of `s`, and what follows it. -/
def read? (s : List Char) : Option (List Char × List Char) :=
  blanks? s <|> punctuation? s <|> anyWord? s <|> quoted? s <|> number? s

theorem cuts_of_read? {s m r : List Char} (h : read? s = some (m, r)) : Cuts s m r := by
  simp only [read?, Option.orElse_eq_orElse, Option.orElse_eq_or, Option.or_eq_some_iff] at h
  rcases h with h | ⟨-, h | ⟨-, h | ⟨-, h | ⟨-, h⟩⟩⟩⟩
  · exact cuts_of_blanks? h
  · exact cuts_of_punctuation? h
  · exact cuts_of_anyWord? h
  · exact cuts_of_quoted? h
  · exact cuts_of_number? h

@[simp] theorem read?_nil : read? [] = none := rfl

/-- The outcome of a search for the next lexeme. -/
structure Found where
  /-- The text passed before the lexeme, or all of the text if there is no lexeme. -/
  gap : List Char
  /-- The lexeme, and what follows it. -/
  hit : Option (List Char × List Char)
deriving DecidableEq, Repr

/-- The first lexeme of `s`, counted by where it begins. -/
def search (s : List Char) : Found :=
  go [] s
where
  /-- The search, with the text already passed in reverse. -/
  go (passed : List Char) : List Char → Found
    | [] => ⟨passed.reverse, none⟩
    | c :: s =>
      match read? (c :: s) with
      | some hit => ⟨passed.reverse, some hit⟩
      | none => go (c :: passed) s

/-! ## One step at a time -/

private theorem search_go_eq (passed s : List Char) :
    search.go passed s = ⟨passed.reverse ++ (search s).gap, (search s).hit⟩ := by
  suffices ∀ acc, search.go (acc ++ passed) s =
      ⟨passed.reverse ++ (search.go acc s).gap, (search.go acc s).hit⟩ from this []
  induction s with
  | nil => intro acc; simp [search.go]
  | cons c s ih =>
    intro acc
    simp only [search.go]
    split
    · simp
    · exact ih (c :: acc)

@[simp] theorem search_nil : search [] = ⟨[], none⟩ := rfl

/-- The search stops where a lexeme stands. -/
theorem search_of_read?_eq_some {s m r : List Char} (h : read? s = some (m, r)) :
    search s = ⟨[], some (m, r)⟩ := by
  cases s with
  | nil => simp at h
  | cons c s => simp [search, search.go, h]

/-- The search moves on by one character where no lexeme stands. -/
theorem search_cons_of_read?_eq_none {c : Char} {s : List Char} (h : read? (c :: s) = none) :
    search (c :: s) = ⟨c :: (search s).gap, (search s).hit⟩ := by
  rw [search, search.go, h, search_go_eq]
  rfl

/-! ## What a search finds -/

/-- Without a lexeme the gap is the whole text. -/
theorem gap_of_hit_eq_none {s : List Char} (h : (search s).hit = none) : (search s).gap = s := by
  induction s with
  | nil => rfl
  | cons c s ih =>
    cases hr : read? (c :: s) with
    | some p => rw [search_of_read?_eq_some hr] at h; simp at h
    | none =>
      rw [search_cons_of_read?_eq_none hr] at h ⊢
      simp [ih h]

/-- The lexeme found stands right behind the gap. -/
theorem append_of_hit_eq_some {s m r : List Char} (h : (search s).hit = some (m, r)) :
    ∃ t, s = (search s).gap ++ t ∧ read? t = some (m, r) := by
  induction s with
  | nil => simp at h
  | cons c s ih =>
    cases hr : read? (c :: s) with
    | some p =>
      rw [search_of_read?_eq_some hr] at h ⊢
      simp only [Option.some.injEq] at h
      exact ⟨c :: s, rfl, h ▸ hr⟩
    | none =>
      rw [search_cons_of_read?_eq_none hr] at h ⊢
      obtain ⟨t, ht, hm⟩ := ih h
      exact ⟨t, by simp [← ht], hm⟩

/-- Gap, lexeme and rest are the text again, and the lexeme is not empty. -/
theorem cuts_of_hit_eq_some {s m r : List Char} (h : (search s).hit = some (m, r)) :
    (search s).gap ++ m ++ r = s ∧ m ≠ [] := by
  obtain ⟨t, ht, hm⟩ := append_of_hit_eq_some h
  obtain ⟨happ, hne⟩ := cuts_of_read? hm
  exact ⟨by rw [List.append_assoc, happ, ← ht], hne⟩

theorem length_lt_of_hit_eq_some {s m r : List Char} (h : (search s).hit = some (m, r)) :
    (search s).gap.length + r.length < s.length := by
  obtain ⟨happ, hne⟩ := cuts_of_hit_eq_some h
  have := congrArg List.length happ
  have := List.length_pos_iff.mpr hne
  simp only [List.length_append] at *
  omega

/-- The gap stands at the head of the text. -/
theorem exists_eq_gap_append (s : List Char) : ∃ t, s = (search s).gap ++ t := by
  cases h : (search s).hit with
  | none => exact ⟨[], by rw [gap_of_hit_eq_none h, List.append_nil]⟩
  | some p =>
    obtain ⟨t, ht, -⟩ := append_of_hit_eq_some h
    exact ⟨t, ht⟩

/-- No gap and no lexeme: the text is empty. -/
theorem eq_nil_of_search {s : List Char} (hg : (search s).gap = []) (hh : (search s).hit = none) :
    s = [] := by
  rw [← gap_of_hit_eq_none hh, hg]

end JsonText.Lexeme
