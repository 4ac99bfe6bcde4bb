-- SUMMARY: A buffer that collects the fragments of a text and joins them at the end.

/-!
# Buffers

A layout adds one fragment after another to a buffer. Nothing is joined before the
whole text is asked for, and empty fragments are not kept.
-/

namespace JsonText

/-- Fragments of a text, in order. -/
structure Buffer where
  /-- The fragments, none of them empty. -/
  fragments : Array String
deriving DecidableEq, Repr

namespace Buffer

/-- The buffer without fragments. -/
def empty : Buffer :=
  ⟨#[]⟩

/-- Adds a fragment, unless it is empty. -/
def add (b : Buffer) (fragment : String) : Buffer :=
  if fragment.isEmpty then b else ⟨b.fragments.push fragment⟩

/-- Adds a fragment directly behind another one. -/
def addPrefixed (b : Buffer) (lead fragment : String) : Buffer :=
  (b.add lead).add fragment

/-- Ends the line. -/
def endLine (b : Buffer) : Buffer :=
  b.add "\n"

/-- The fragments, one after another. -/
def text (b : Buffer) : String :=
  String.join b.fragments.toList

/-- What is left out adds nothing to the text. -/
@[simp] theorem text_add (b : Buffer) (fragment : String) :
    (b.add fragment).text = b.text ++ fragment := by
  rw [add]
  split
  · next h => rw [String.isEmpty_iff.mp h, String.append_empty]
  · simp [text]

@[simp] theorem text_addPrefixed (b : Buffer) (lead fragment : String) :
    (b.addPrefixed lead fragment).text = b.text ++ lead ++ fragment := by
  rw [addPrefixed, text_add, text_add]

@[simp] theorem text_endLine (b : Buffer) : b.endLine.text = b.text ++ "\n" :=
  text_add b "\n"

end Buffer

end JsonText
