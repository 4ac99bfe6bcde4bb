-- SUMMARY: What the indented layout writes, by the number of open containers instead of a stack.
import JsonText.Layout.Basic

/-!
# Layouts by depth

The stack of indentations is as high as containers are open, and each of its
entries is the indentation at its height. So the layout needs no more than a count
of the open containers, which a closer without a container leaves at zero. `write`
says what is written for tokens when that count is known. One step of the layout
writes what `write` says of one token and keeps the stack in this shape, hence so
does a run.
-/

namespace JsonText

namespace Layout

open Token (Kind)

/-! ## The stack at a depth -/

/-- The stack where `depth` containers are open. -/
def IndentStack.atDepth (depth : Nat) : IndentStack where
  saved := (List.range depth).reverse.map Layout.indent
  current := Layout.indent depth

namespace IndentStack

theorem atDepth_zero : atDepth 0 = empty := rfl

theorem enter_atDepth (depth : Nat) : (atDepth depth).enter = atDepth (depth + 1) := by
  rw [enter, atDepth, atDepth, indent_succ, List.range_succ, List.reverse_concat, List.map_cons]

/-- Closing a container comes back to the depth before it; at depth zero nothing changes. -/
theorem leave_atDepth (depth : Nat) : (atDepth depth).leave = atDepth (depth - 1) := by
  cases depth with
  | zero => rfl
  | succ depth =>
      rw [leave, atDepth, atDepth, List.range_succ, List.reverse_concat, List.map_cons]
      rfl

end IndentStack

/-! ## Text around a token -/

/-- The depth at which a token stands, where `depth` containers are open before it. A
closer stands at the depth of its container's line; one that closes nothing stands at zero. -/
def depthOf (depth : Nat) (k : Kind) : Nat :=
  if k.isClose then depth - 1 else depth

/-- How many containers are open behind a token, where `depth` are open before it. -/
def depthAfter (depth : Nat) (k : Kind) : Nat :=
  if k.isOpen then depth + 1 else depthOf depth k

/-- What is written before a token of kind `k` that stands at `depth`. -/
def before (prev : Option Kind) (depth : Nat) (k : Kind) : String :=
  match k with
  | .colon | .comma => ""
  | .braceClose | .bracketClose => if prev.any (!·.isOpen) then indent depth else ""
  | _ => if prev = some .colon then "" else indent depth

/-- What is written after a token of kind `k`. -/
def after (k : Kind) (next : Option Kind) : String :=
  match k with
  | .colon => " "
  | .comma => "\n"
  | .braceOpen | .bracketOpen => if next.any (!·.isClose) then "\n" else ""
  | .braceClose | .bracketClose => if next.any (· != .comma) then "\n" else ""
  | _ => if next = some .colon ∨ next = some .comma then "" else "\n"

/-- What is written for tokens behind one of kind `prev`, with `depth` containers open. -/
def write (prev : Option Kind) (depth : Nat) : List Token → String
  | [] => ""
  | t :: ts =>
    before prev (depthOf depth t.kind) t.kind ++ t.text ++
      after t.kind (ts.head?.map (·.kind)) ++ write (some t.kind) (depthAfter depth t.kind) ts

@[simp] theorem write_nil (prev : Option Kind) (depth : Nat) : write prev depth [] = "" := rfl

theorem write_cons (prev : Option Kind) (depth : Nat) (t : Token) (ts : List Token) :
    write prev depth (t :: ts) =
      before prev (depthOf depth t.kind) t.kind ++ t.text ++
        after t.kind (ts.head?.map (·.kind)) ++
        write (some t.kind) (depthAfter depth t.kind) ts := rfl

/-! ## Steps -/

namespace State

variable {s : State} {depth : Nat}

theorem prev_step (s : State) (t : Token) (next : Option Kind) :
    (s.step t next).prev = some t.kind := by
  unfold step
  split <;> rfl

/-- A step keeps the stack in shape, at the depth that the token leaves. -/
theorem indent_step (h : s.indent = .atDepth depth) (t : Token) (next : Option Kind) :
    (s.step t next).indent = .atDepth (depthAfter depth t.kind) := by
  obtain ⟨k, text⟩ := t
  cases k with
  | braceClose | bracketClose => exact (congrArg _ h).trans (IndentStack.leave_atDepth depth)
  | braceOpen | bracketOpen => exact (congrArg _ h).trans (IndentStack.enter_atDepth depth)
  | _ => exact h

theorem lead_eq (h : s.indent = .atDepth depth) :
    s.lead = if s.prev = some .colon then "" else Layout.indent depth := by
  rw [lead, h]
  rfl

theorem current_leave_eq (h : s.indent = .atDepth depth) :
    s.indent.leave.current = Layout.indent (depth - 1) := by
  rw [h, IndentStack.leave_atDepth]
  rfl

/-- A step writes the token with the text around it. -/
theorem text_step (h : s.indent = .atDepth depth) (t : Token) (next : Option Kind) :
    (s.step t next).output.text =
      s.output.text ++
        (before s.prev (depthOf depth t.kind) t.kind ++ t.text ++ after t.kind next) := by
  obtain ⟨k, text⟩ := t
  cases k with
  | braceClose | bracketClose =>
      change _ = s.output.text ++ (before s.prev (depth - 1) _ ++ text ++ after _ next)
      simp only [step, before, after, current_leave_eq h, apply_ite Buffer.text, Buffer.text_add,
        Buffer.text_endLine]
      split <;> split <;> simp only [String.append_assoc, String.append_empty, String.empty_append]
  | colon | comma => simp [step, before, after, String.append_assoc]
  | _ =>
      change _ = s.output.text ++ (before s.prev depth _ ++ text ++ after _ next)
      simp only [step, before, after, lead_eq h, apply_ite Buffer.text, Buffer.text_addPrefixed,
        Buffer.text_endLine]
      split <;> split <;> simp only [String.append_assoc, String.append_empty, String.empty_append]

/-! ## Runs -/

/-- A run writes its tokens one after another. -/
theorem text_run (h : s.indent = .atDepth depth) (ts : List Token) :
    (s.run ts).output.text = s.output.text ++ write s.prev depth ts := by
  induction ts generalizing s depth with
  | nil => exact String.append_empty.symm
  | cons t ts ih =>
      rw [run, ih (indent_step h t _), text_step h, prev_step, write_cons]
      simp only [String.append_assoc]

/-- The state in which a run of `us ++ ts` has laid out `us`. -/
def reached (s : State) (us ts : List Token) : State :=
  match us with
  | [] => s
  | u :: us => (s.step u ((us ++ ts).head?.map (·.kind))).reached us ts

theorem run_append (s : State) (us ts : List Token) :
    s.run (us ++ ts) = (s.reached us ts).run ts := by
  induction us generalizing s with
  | nil => rfl
  | cons u us ih => exact ih _

/-- Wherever a run has got to, the stack is at the depth to which the tokens lead. -/
theorem indent_reached (h : s.indent = .atDepth depth) (us ts : List Token) :
    (s.reached us ts).indent =
      .atDepth (us.foldl (fun depth t => depthAfter depth t.kind) depth) := by
  induction us generalizing s depth with
  | nil => exact h
  | cons u us ih => exact ih (indent_step h u _)

theorem indent_start : start.indent = .atDepth 0 :=
  IndentStack.atDepth_zero.symm

end State

end Layout

/-- The indented layout of a text is what is written for its tokens at depth zero. -/
theorem Layout.format_eq_write (x : String) : format x = write none 0 (tokens x) := by
  rw [format, State.text_run State.indent_start]
  exact String.empty_append

end JsonText
