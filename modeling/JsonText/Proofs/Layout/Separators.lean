-- SUMMARY: The indented layout as the texts of the tokens with one separator between neighbours.
import JsonText.Proofs.Layout.Idempotence

/-!
# Separators

The layout writes something before and something behind each token, with a look
at the tokens on both sides. What meets between two neighbours adds up to one
separator. It depends on their kinds and on the indentation of the second one,
which counts the containers open there; a closer that closes nothing does not
count.
-/

namespace JsonText

open Token (Kind Filter)

/-- A value that is no container. -/
def Token.Kind.isScalar : Kind → Bool
  | .trueWord | .falseWord | .nullWord | .string | .number => true
  | _ => false

namespace Layout

/-! ## The law -/

/-- What stands between a token of kind `a` and one of kind `b`, where the line of the latter
has the given indentation. -/
def separator (a b : Kind) (indentation : String) : String :=
  if a = .colon then
    if b.isClose then " " ++ indentation else " "
  else if b = .comma then
    if a.isClose ∨ a.isScalar then "" else "\n"
  else if b = .colon then
    if a.isScalar then "" else "\n"
  else if b.isClose ∧ a.isOpen then ""
  else "\n" ++ indentation

/-- What stands behind the last token, where that is of kind `a`. -/
def trailer (a : Kind) : String :=
  if a.isScalar ∨ a = .comma then "\n" else if a = .colon then " " else ""

/-- How many containers are open behind the tokens. -/
def depthBehind (ts : List Token) : Nat :=
  ts.foldl (fun depth t =>
    if t.kind.isOpen then depth + 1 else if t.kind.isClose then depth - 1 else depth) 0

/-- The indentation of the token `b` behind the tokens `us`: four spaces for each container which
is open there, without the one that `b` itself may close. -/
def indentationOf (us : List Token) (b : Token) : String :=
  let depth := if b.kind.isClose then depthBehind us - 1 else depthBehind us
  String.ofList (List.replicate (4 * depth) ' ')

/-- What stands between the tokens `us` and the token `b`. -/
def gap (us : List Token) (b : Token) : String :=
  us.getLast?.elim "" fun a => separator a.kind b.kind (indentationOf us b)

/-- The texts of tokens behind the tokens `us`, each with what stands before it. -/
def joinBehind (us : List Token) : List Token → String
  | [] => ""
  | b :: ts => gap us b ++ (b.text ++ joinBehind (us ++ [b]) ts)

/-- What stands behind all of the tokens. -/
def ending (ts : List Token) : String :=
  ts.getLast?.elim "" fun a => trailer a.kind

/-- The texts of the tokens with what stands between and behind them. -/
def joined (ts : List Token) : String :=
  joinBehind [] ts ++ ending ts

/-! ## Both halves of a separator -/

/-- What is written behind the text of a token of kind `k`, where `ts` is behind the token and
`depth` containers are open there. -/
def behind (k : Kind) (depth : Nat) (ts : List Token) : String :=
  after k (ts.head?.map (·.kind)) ++ write (some k) depth ts

theorem write_cons_eq_behind (prev : Option Kind) (depth : Nat) (t : Token) (ts : List Token) :
    write prev depth (t :: ts) =
      before prev (depthOf depth t.kind) t.kind ++
        (t.text ++ behind t.kind (depthAfter depth t.kind) ts) := by
  rw [write_cons, behind]
  simp only [String.append_assoc]

/-- What is written behind a token and before the next one is their separator. -/
theorem after_append_before {a : Kind} (ha : Filter.structural.keeps a = true) (b : Kind)
    (depth : Nat) :
    after a (some b) ++ before (some a) depth b = separator a b (indent depth) := by
  cases a with
  | unknown | whitespace => exact absurd ha (by decide)
  | _ => cases b <;> rfl

theorem after_none {a : Kind} (ha : Filter.structural.keeps a = true) :
    after a none = trailer a := by
  cases a with
  | unknown | whitespace => exact absurd ha (by decide)
  | _ => rfl

/-- Nothing stands before the first token, as no container is open there. -/
theorem before_none (k : Kind) : before none (depthOf 0 k) k = "" := by
  cases k <;> rfl

theorem behind_cons {a : Kind} (ha : Filter.structural.keeps a = true) (depth : Nat) (b : Token)
    (ts : List Token) :
    behind a depth (b :: ts) =
      separator a b.kind (indent (depthOf depth b.kind)) ++
        (b.text ++ behind b.kind (depthAfter depth b.kind) ts) := by
  rw [behind, List.head?_cons, Option.map_some, write_cons_eq_behind, ← String.append_assoc,
    after_append_before ha]

theorem behind_nil {a : Kind} (ha : Filter.structural.keeps a = true) (depth : Nat) :
    behind a depth [] = trailer a := by
  rw [behind, List.head?_nil, Option.map_none, after_none ha, write_nil, String.append_empty]

/-! ## From neighbours to all tokens -/

theorem depthBehind_concat (us : List Token) (a : Token) :
    depthBehind (us ++ [a]) = depthAfter (depthBehind us) a.kind := by
  rw [depthBehind, List.foldl_concat]
  rfl

theorem gap_concat (us : List Token) (a b : Token) :
    gap (us ++ [a]) b =
      separator a.kind b.kind (indent (depthOf (depthBehind (us ++ [a])) b.kind)) := by
  rw [gap, List.getLast?_concat]
  rfl

/-- Behind a token the layout goes on with separators, wherever the token stands. -/
theorem behind_eq_joinBehind (us : List Token) {a : Token} {ts : List Token}
    (h : ∀ t ∈ a :: ts, Filter.structural.keeps t.kind = true) :
    behind a.kind (depthBehind (us ++ [a])) ts = joinBehind (us ++ [a]) ts ++ ending (a :: ts) := by
  induction ts generalizing us a with
  | nil =>
      rw [behind_nil (h a List.mem_cons_self), joinBehind, String.empty_append]
      rfl
  | cons b ts ih =>
      obtain ⟨ha, hts⟩ := List.forall_mem_cons.mp h
      have hending : ending (a :: b :: ts) = ending (b :: ts) := by
        rw [ending, List.getLast?_cons_cons, ← ending]
      rw [behind_cons ha, ← depthBehind_concat, ih _ hts, joinBehind, gap_concat, hending]
      simp only [String.append_assoc]

/-- The layout of tokens with structure puts separators between them. -/
theorem write_eq_joined {ts : List Token}
    (h : ∀ t ∈ ts, Filter.structural.keeps t.kind = true) : write none 0 ts = joined ts := by
  cases ts with
  | nil => rfl
  | cons t ts =>
      have hbehind := behind_eq_joinBehind [] h
      rw [depthBehind_concat] at hbehind
      rw [write_cons_eq_behind, before_none, joined, joinBehind, String.append_assoc,
        String.append_assoc, ← hbehind]
      rfl

theorem keeps_of_mem_tokens {x : String} {t : Token} (h : t ∈ tokens x) :
    Filter.structural.keeps t.kind = true := by
  rw [tokens] at h
  exact (List.mem_filter.mp h).2

theorem format_eq_joined_tokens (x : String) : format x = joined (tokens x) :=
  (format_eq_write x).trans (write_eq_joined fun _ => keeps_of_mem_tokens)

end Layout

/-- The indented layout of a text consists of its structural tokens as they are spelled. Nothing
stands before the first, and between two neighbours stands their separator. The empty text is
laid out as `null`. Wherever the layout of tokens has got to, the indentation in hand is that of
the containers which are open there, and the ones saved are those of the containers around it. -/
theorem format_eq_joined (x : String) :
    format x =
        Layout.joined (if x = "" then [⟨.nullWord, "null"⟩] else Token.structural x) ∧
      ∀ us ts, Layout.State.start.run (us ++ ts) = (Layout.State.start.reached us ts).run ts ∧
        (Layout.State.start.reached us ts).indent =
          { current := String.ofList (List.replicate (4 * Layout.depthBehind us) ' ')
            saved := (List.range (Layout.depthBehind us)).reverse.map fun depth =>
              String.ofList (List.replicate (4 * depth) ' ') } := by
  constructor
  · rw [Layout.format_eq_joined_tokens]
    split
    · next h => rw [h, Layout.tokens_empty]
    · next h => rw [Layout.tokens_of_ne_empty h]
  · intro us ts
    exact ⟨Layout.State.run_append _ us ts,
      Layout.State.indent_reached Layout.State.indent_start us ts⟩

/-- A closer of the other family ends the line of an opener, and one that closes nothing takes
nothing off the indentation. -/
example : Layout.joined [⟨.braceOpen, "\x7b"⟩, ⟨.bracketOpen, "["⟩, ⟨.braceClose, "\x7d"⟩,
      ⟨.bracketClose, "]"⟩, ⟨.bracketClose, "]"⟩, ⟨.number, "1"⟩] =
    "\x7b\n    [\x7d\n]\n]\n1\n" := by
  decide

end JsonText
