-- SUMMARY: Byte offsets in a text, and slices between them, which need not exist.

/-!
# Slices

Positions in a text count the bytes of its UTF-8 form. A slice from one offset
to another exists only if the offsets are in order and both fall between two
characters of the text, or at one of its ends.
-/

namespace JsonText

/-- How many bytes the characters take in UTF-8. -/
def byteLength : List Char → Nat
  | [] => 0
  | c :: s => c.utf8Size + byteLength s

@[simp] theorem byteLength_nil : byteLength [] = 0 := rfl

@[simp] theorem byteLength_cons (c : Char) (s : List Char) :
    byteLength (c :: s) = c.utf8Size + byteLength s := rfl

@[simp] theorem byteLength_append (s t : List Char) :
    byteLength (s ++ t) = byteLength s + byteLength t := by
  induction s with
  | nil => simp
  | cons c s ih => simp [ih, Nat.add_assoc]

/-- No character takes less than one byte. -/
theorem length_le_byteLength (s : List Char) : s.length ≤ byteLength s := by
  induction s with
  | nil => exact Nat.le_refl 0
  | cons c s ih =>
    have := c.utf8Size_pos
    simp only [List.length_cons, byteLength_cons]
    omega

theorem byteLength_pos {s : List Char} (h : s ≠ []) : 0 < byteLength s :=
  Nat.lt_of_lt_of_le (List.length_pos_iff.mpr h) (length_le_byteLength s)

theorem size_utf8Encode (s : List Char) : s.utf8Encode.size = byteLength s := by
  induction s with
  | nil => simp
  | cons c s ih =>
    rw [List.utf8Encode_cons, ByteArray.size_append, ih, List.utf8Encode_singleton,
      List.size_toByteArray, String.length_utf8EncodeChar, byteLength_cons]

theorem byteLength_toList (text : String) : byteLength text.toList = text.utf8ByteSize := by
  rw [← size_utf8Encode, String.utf8Encode_toList, String.size_toByteArray]

/-! ## Splitting at an offset -/

/-- What stands before and behind the offset, unless the offset is inside a character or behind
the end. -/
def splitBytes? (offset : Nat) : List Char → Option (List Char × List Char)
  | [] => if offset = 0 then some ([], []) else none
  | c :: s =>
    if offset = 0 then some ([], c :: s)
    else if offset < c.utf8Size then none
    else (splitBytes? (offset - c.utf8Size) s).map fun parts => (c :: parts.1, parts.2)

theorem splitBytes?_append (s t : List Char) :
    splitBytes? (byteLength s) (s ++ t) = some (s, t) := by
  induction s with
  | nil => cases t <;> simp [splitBytes?]
  | cons c s ih =>
    have hpos := c.utf8Size_pos
    rw [List.cons_append, splitBytes?, byteLength_cons, if_neg (by omega), if_neg (by omega),
      Nat.add_sub_cancel_left, ih]
    rfl

/-- The two parts are the text, and the first one takes as many bytes as the offset says. -/
theorem of_splitBytes?_eq_some {offset : Nat} {s p q : List Char}
    (h : splitBytes? offset s = some (p, q)) : s = p ++ q ∧ byteLength p = offset := by
  induction s generalizing offset p with
  | nil =>
    rw [splitBytes?] at h
    split at h
    · cases h
      exact ⟨rfl, by simp_all⟩
    · cases h
  | cons c s ih =>
    rw [splitBytes?] at h
    split at h
    · cases h
      exact ⟨rfl, by simp_all⟩
    · split at h
      · cases h
      · obtain ⟨⟨p', q'⟩, hsplit, hparts⟩ := Option.map_eq_some_iff.mp h
        cases hparts
        obtain ⟨rfl, hlen⟩ := ih hsplit
        refine ⟨rfl, ?_⟩
        rw [byteLength_cons, hlen]
        omega

/-! ## Slices -/

/-- A slice that does not exist, by its ends. -/
structure SliceError where
  /-- The offset at which the slice was to begin. -/
  start : Nat
  /-- The offset at which it was to end. -/
  stop : Nat
deriving DecidableEq, Repr

/-- The characters of a text from one offset to another. -/
def slice (text : String) (start stop : Nat) : Except SliceError (List Char) :=
  match splitBytes? start text.toList with
  | none => .error ⟨start, stop⟩
  | some (_, s) =>
    if stop < start then .error ⟨start, stop⟩
    else
      match splitBytes? (stop - start) s with
      | none => .error ⟨start, stop⟩
      | some (m, _) => .ok m

/-- Any part of a text is the slice between its ends. -/
theorem slice_eq_ok {text : String} {p m q : List Char} (h : text.toList = p ++ (m ++ q)) :
    slice text (byteLength p) (byteLength p + byteLength m) = .ok m := by
  rw [slice, h, splitBytes?_append]
  dsimp only
  rw [if_neg (by omega), Nat.add_sub_cancel_left, splitBytes?_append]

end JsonText
