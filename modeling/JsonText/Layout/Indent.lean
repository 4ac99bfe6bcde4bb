-- SUMMARY: The indentation of a line, and the stack of those to come back to.

/-!
# Indentation

While a layout runs through tokens it keeps the indentation of the line in hand
and, for each container that is open, the one to come back to when the container
is closed. A closer that closes nothing leaves the indentation as it is.
-/

namespace JsonText.Layout

/-- Indentation added for each level of nesting. -/
def indentUnit : String := "    "

/-- The indentation at a depth, four spaces a level. -/
def indent (depth : Nat) : String :=
  String.ofList (List.replicate (4 * depth) ' ')

theorem indent_succ (depth : Nat) : indent (depth + 1) = indent depth ++ indentUnit := by
  have hunit : indentUnit = String.ofList (List.replicate 4 ' ') := rfl
  rw [indent, indent, hunit, ← String.ofList_append, List.replicate_append_replicate, Nat.mul_succ]

@[simp] theorem toList_indent (depth : Nat) :
    (indent depth).toList = List.replicate (4 * depth) ' ' :=
  String.toList_ofList

/-- The indentation in hand, and those saved where containers were opened. -/
structure IndentStack where
  /-- What was saved at each container that is open, the innermost first. -/
  saved : List String
  /-- The indentation of the line in hand. -/
  current : String
deriving DecidableEq, Repr

namespace IndentStack

/-- No container is open. -/
def empty : IndentStack :=
  ⟨[], ""⟩

/-- Opens a container. -/
def enter (s : IndentStack) : IndentStack :=
  ⟨s.current :: s.saved, s.current ++ indentUnit⟩

/-- Closes a container, if one is open. -/
def leave (s : IndentStack) : IndentStack :=
  match s.saved with
  | [] => s
  | parent :: saved => ⟨saved, parent⟩

end IndentStack

end JsonText.Layout
