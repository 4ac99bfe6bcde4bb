-- SUMMARY: The indented layout of a document's text is the indented text of the document.
import JsonText.Proofs.Document.Spelling
import JsonText.Proofs.Layout.Separators

/-!
# Indented documents

The layout of a token list looks at the depth, the token before and the token
behind; the indented text of a document follows its tree. The two agree on every
document, wherever it stands: behind an opener, a comma or a colon, or at the top.
-/

namespace JsonText

open Token (Kind)

/-! ## Text between two tokens -/

namespace Layout

/-- What stands before a value: nothing behind a colon, else the indentation of its line. -/
def lead (prev : Option Kind) (depth : Nat) : String :=
  if prev = some .colon then "" else indent depth

/-- A value may end with a token of this kind. -/
def IsEnd : Kind → Prop
  | .trueWord | .falseWord | .nullWord | .string | .number | .braceClose | .bracketClose => True
  | _ => False

variable {k n : Kind}

theorem before_open (hk : k.isOpen = true) (prev : Option Kind) (depth : Nat) :
    before prev depth k = lead prev depth := by
  cases k with
  | braceOpen | bracketOpen => rfl
  | _ => exact absurd hk nofun

theorem after_open (hk : k.isOpen = true) (n : Kind) :
    after k (some n) = if n.isClose then "" else "\n" := by
  cases k with
  | braceOpen | bracketOpen => cases n <;> rfl
  | _ => exact absurd hk nofun

theorem depthAfter_open (hk : k.isOpen = true) (depth : Nat) : depthAfter depth k = depth + 1 := by
  rw [depthAfter, if_pos hk]

theorem before_close (hk : k.isClose = true) (p : Kind) (depth : Nat) :
    before (some p) depth k = if p.isOpen then "" else indent depth := by
  cases k with
  | braceClose | bracketClose => cases p <;> rfl
  | _ => exact absurd hk nofun

theorem depthOf_close (hk : k.isClose = true) (depth : Nat) : depthOf (depth + 1) k = depth := by
  rw [depthOf, if_pos hk]
  rfl

theorem depthAfter_close (hk : k.isClose = true) (depth : Nat) :
    depthAfter (depth + 1) k = depth := by
  have hopen : k.isOpen ≠ true := by
    cases k with
    | braceClose | bracketClose => exact nofun
    | _ => exact absurd hk nofun
  rw [depthAfter, if_neg hopen, depthOf_close hk]

theorem IsEnd.isOpen_ne (hk : IsEnd k) : k.isOpen ≠ true := by
  cases k with
  | braceOpen | bracketOpen => exact hk.elim
  | _ => exact nofun

theorem IsEnd.after_comma (hk : IsEnd k) : after k (some .comma) = "" := by
  cases k with
  | unknown | whitespace | braceOpen | bracketOpen | comma | colon => exact hk.elim
  | _ => rfl

theorem IsEnd.after_close (hk : IsEnd k) (hn : n.isClose = true) : after k (some n) = "\n" := by
  cases n with
  | braceClose | bracketClose =>
      cases k with
      | unknown | whitespace | braceOpen | bracketOpen | comma | colon => exact hk.elim
      | _ => rfl
  | _ => exact absurd hn nofun

/-! ## Lines of the layout -/

variable {t u : Token}

/-- An opener stands where a value stands. -/
theorem write_open (ht : t.kind.isOpen = true) (prev : Option Kind) (depth : Nat)
    (ts : List Token) :
    write prev depth (t :: ts) =
      lead prev depth ++ (t.text ++ behind t.kind (depth + 1) ts) := by
  have hdepth : depthOf depth t.kind = depth := by
    obtain ⟨k, text⟩ := t
    cases k with
    | braceOpen | bracketOpen => rfl
    | _ => exact absurd ht nofun
  rw [write_cons_eq_behind, hdepth, before_open ht, depthAfter_open ht]

/-- A container that holds anything does so from the next line on. -/
theorem behind_open (hk : k.isOpen = true) (hu : u.kind.isClose ≠ true) (depth : Nat)
    (ts : List Token) :
    behind k depth (u :: ts) = "\n" ++ write (some k) depth (u :: ts) := by
  rw [behind, List.head?_cons, Option.map_some, after_open hk, if_neg hu]

/-- An empty container is closed where it is opened. -/
theorem behind_open_close (hk : k.isOpen = true) (hu : u.kind.isClose = true) (depth : Nat)
    (ts : List Token) :
    behind k (depth + 1) (u :: ts) = u.text ++ behind u.kind depth ts := by
  rw [behind, List.head?_cons, Option.map_some, after_open hk, if_pos hu, write_cons_eq_behind,
    depthOf_close hu, depthAfter_close hu, before_close hu, if_pos hk, String.empty_append,
    String.empty_append]

/-- A closer behind a value stands on a line of its own. -/
theorem behind_end_close (hk : IsEnd k) (hu : u.kind.isClose = true) (depth : Nat)
    (ts : List Token) :
    behind k (depth + 1) (u :: ts) =
      "\n" ++ (indent depth ++ (u.text ++ behind u.kind depth ts)) := by
  rw [behind, List.head?_cons, Option.map_some, hk.after_close hu, write_cons_eq_behind,
    depthOf_close hu, depthAfter_close hu, before_close hu, if_neg hk.isOpen_ne]

/-- A comma behind a value ends the line. -/
theorem behind_end_comma (hk : IsEnd k) (depth : Nat) (ts : List Token) :
    behind k depth (⟨.comma, ","⟩ :: ts) = ",\n" ++ write (some .comma) depth ts := by
  have hline : ",\n" = "," ++ "\n" := rfl
  rw [behind, List.head?_cons, Option.map_some, hk.after_comma, write_cons_eq_behind, hline,
    String.append_assoc, String.empty_append]
  exact String.empty_append

/-- A scalar stands where a value stands. -/
theorem write_scalar (k : Kind) (hk : IsEnd k) (hc : k.isClose ≠ true) (text : String)
    (prev : Option Kind) (depth : Nat) (ts : List Token) :
    write prev depth (⟨k, text⟩ :: ts) = lead prev depth ++ (text ++ behind k depth ts) := by
  rw [write_cons_eq_behind]
  cases k with
  | trueWord | falseWord | nullWord | string | number => rfl
  | braceClose | bracketClose => exact absurd rfl hc
  | _ => exact hk.elim

/-- A key and its colon stand where a value stands. -/
theorem write_key (prev : Option Kind) (depth : Nat) (key : String) (ts : List Token) :
    write prev depth (⟨.string, key⟩ :: ⟨.colon, ":"⟩ :: ts) =
      lead prev depth ++ (key ++ (": " ++ write (some .colon) depth ts)) := by
  have hcolon : behind .string depth (⟨.colon, ":"⟩ :: ts) =
      ": " ++ write (some .colon) depth ts := by
    have hline : ": " = ":" ++ " " := rfl
    rw [behind, write_cons_eq_behind, hline, String.append_assoc]
    exact String.empty_append.trans String.empty_append
  rw [write_scalar .string trivial (by decide), hcolon]

end Layout

/-! ## The layout of a document -/

namespace Document

open Layout (lead behind IsEnd write indent)

/-- The kind of the token with which the document ends. -/
def lastKind : Document → Kind
  | null => .nullWord
  | bool b => if b then .trueWord else .falseWord
  | number _ => .number
  | string _ => .string
  | array _ => .bracketClose
  | object _ => .braceClose

theorem isEnd_lastKind (d : Document) : IsEnd d.lastKind := by
  cases d with
  | bool b => cases b <;> trivial
  | _ => trivial

theorem behind_open_tokens_append {k : Kind} (hk : k.isOpen = true) (depth : Nat) (d : Document)
    (ts : List Token) :
    behind k depth (d.tokens ++ ts) = "\n" ++ write (some k) depth (d.tokens ++ ts) := by
  obtain ⟨u, us, hus, hu⟩ := d.exists_tokens_append ts
  rw [hus]
  exact Layout.behind_open hk hu depth us

mutual

/-- A document is laid out as its indented text, behind what stands before a value. -/
theorem write_tokens_append (prev : Option Kind) (depth : Nat) : ∀ (d : Document)
    (ts : List Token), write prev depth (d.tokens ++ ts) =
      lead prev depth ++ (prettyAt depth d ++ behind d.lastKind depth ts)
  | null, ts => Layout.write_scalar .nullWord trivial nofun "null" prev depth ts
  | bool true, ts => Layout.write_scalar .trueWord trivial nofun "true" prev depth ts
  | bool false, ts => Layout.write_scalar .falseWord trivial nofun "false" prev depth ts
  | number s, ts => Layout.write_scalar .number trivial nofun s prev depth ts
  | string s, ts => Layout.write_scalar .string trivial nofun s prev depth ts
  | array [], ts => by
      have htokens : (array []).tokens ++ ts =
          ⟨.bracketOpen, "["⟩ :: ⟨.bracketClose, "]"⟩ :: ts := rfl
      have hpretty : prettyAt depth (array []) = "[" ++ "]" := rfl
      rw [htokens, hpretty, Layout.write_open rfl, Layout.behind_open_close rfl rfl,
        String.append_assoc]
      rfl
  | array (d :: ds), ts => by
      have hitems := behind_itemTokens_append depth d ds (u := ⟨.bracketClose, "]"⟩) rfl ts
      have hd := write_tokens_append (some .bracketOpen) (depth + 1) d
      have hlead : lead (some .bracketOpen) (depth + 1) = indent (depth + 1) := rfl
      have hpretty : prettyAt depth (array (d :: ds)) =
          "[" ++ "\n" ++ indent (depth + 1) ++ prettyAt (depth + 1) d ++
            prettyItems (depth + 1) ds ++ "\n" ++ indent depth ++ "]" := rfl
      rw [tokens_array_cons_append, Layout.write_open rfl, behind_open_tokens_append rfl, hd,
        hitems, hlead, hpretty]
      simp only [String.append_assoc]
      rfl
  | object [], ts => by
      have htokens : (object []).tokens ++ ts =
          ⟨.braceOpen, "\x7b"⟩ :: ⟨.braceClose, "\x7d"⟩ :: ts := rfl
      have hpretty : prettyAt depth (object []) = "\x7b" ++ "\x7d" := rfl
      rw [htokens, hpretty, Layout.write_open rfl, Layout.behind_open_close rfl rfl,
        String.append_assoc]
      rfl
  | object ((k, d) :: ms), ts => by
      have hmembers := behind_memberTokens_append depth d ms (u := ⟨.braceClose, "\x7d"⟩) rfl ts
      have hd := write_tokens_append (some .colon) (depth + 1) d
      have hlead : lead (some .braceOpen) (depth + 1) = indent (depth + 1) := rfl
      have hcolon : lead (some .colon) (depth + 1) = "" := rfl
      have hpretty : prettyAt depth (object ((k, d) :: ms)) =
          "\x7b" ++ "\n" ++ indent (depth + 1) ++ k ++ ": " ++ prettyAt (depth + 1) d ++
            prettyMembers (depth + 1) ms ++ "\n" ++ indent depth ++ "\x7d" := rfl
      rw [tokens_object_cons_append, Layout.write_open rfl,
        Layout.behind_open (u := ⟨.string, k⟩) rfl nofun, Layout.write_key, hd, hmembers, hlead,
        hcolon, hpretty]
      simp only [String.append_assoc, String.empty_append]
      rfl

/-- Items are laid out as their indented text, and the closer behind them on its own line. -/
theorem behind_itemTokens_append (depth : Nat) : ∀ (d : Document) (ds : List Document)
    {u : Token} (_ : u.kind.isClose = true) (ts : List Token),
    behind d.lastKind (depth + 1) (itemTokens ds ++ u :: ts) =
      prettyItems (depth + 1) ds ++
        ("\n" ++ (indent depth ++ (u.text ++ behind u.kind depth ts)))
  | d, [], u, hu, ts => by
      rw [itemTokens, List.nil_append, Layout.behind_end_close d.isEnd_lastKind hu, prettyItems,
        String.empty_append]
  | d, d' :: ds, u, hu, ts => by
      have hlead : lead (some .comma) (depth + 1) = indent (depth + 1) := rfl
      rw [itemTokens_cons_append, Layout.behind_end_comma d.isEnd_lastKind,
        write_tokens_append (some .comma) (depth + 1) d', behind_itemTokens_append depth d' ds hu,
        hlead, prettyItems]
      simp only [String.append_assoc]

/-- Members are laid out as their indented text, and the closer behind them on its own line. -/
theorem behind_memberTokens_append (depth : Nat) : ∀ (d : Document)
    (ms : List (String × Document)) {u : Token} (_ : u.kind.isClose = true) (ts : List Token),
    behind d.lastKind (depth + 1) (memberTokens ms ++ u :: ts) =
      prettyMembers (depth + 1) ms ++
        ("\n" ++ (indent depth ++ (u.text ++ behind u.kind depth ts)))
  | d, [], u, hu, ts => by
      rw [memberTokens, List.nil_append, Layout.behind_end_close d.isEnd_lastKind hu,
        prettyMembers, String.empty_append]
  | d, (k, d') :: ms, u, hu, ts => by
      have hlead : lead (some .comma) (depth + 1) = indent (depth + 1) := rfl
      have hcolon : lead (some .colon) (depth + 1) = "" := rfl
      rw [memberTokens_cons_append, Layout.behind_end_comma d.isEnd_lastKind, Layout.write_key,
        write_tokens_append (some .colon) (depth + 1) d', behind_memberTokens_append depth d' ms hu,
        hlead, hcolon, prettyMembers]
      simp only [String.append_assoc, String.empty_append]

end

theorem write_tokens (d : Document) : write none 0 d.tokens = d.pretty := by
  have hend : behind d.lastKind 0 [] = if d.isScalar then "\n" else "" := by
    cases d with
    | bool b => cases b <;> rfl
    | _ => rfl
  have hd := write_tokens_append none 0 d []
  have hlead : lead none 0 = "" := rfl
  rw [List.append_nil, hlead, hend, String.empty_append] at hd
  exact hd

/-- The indented text spells the document. -/
theorem WellSpelled.isText_pretty {d : Document} (h : d.WellSpelled) : d.IsText d.pretty where
  wellSpelled := h
  spaced := by
    rw [← d.write_tokens]
    exact (Layout.spaced_write none 0 d.tokens).imp ((sound_tokens h).apart.imp fun _ _ _ => nofun)

end Document

/-- The indented layout of a text that spells a document is the indented text of the
document. -/
theorem format_eq_pretty {d : Document} {text : String} (h : d.IsText text) :
    format text = d.pretty := by
  rw [Layout.format_eq_write, Layout.tokens_of_ne_empty h.ne_empty, h.structural_eq]
  exact d.write_tokens

/-- A nested document with blanks of every sort around its tokens. -/
theorem format_nested_document :
    (Document.object [("\"k\"", .array [.number "-0.5", .null])]).IsText
        " \x7b\t\"k\"\r\n:[ -0.5 ,null]\x7d\n" ∧
      format " \x7b\t\"k\"\r\n:[ -0.5 ,null]\x7d\n" =
        "\x7b\n    \"k\": [\n        -0.5,\n        null\n    ]\n\x7d" := by
  have hnumber : Lexeme.number? "-0.5".toList = some ("-0.5".toList, []) := by
    decide
  have htext : (Document.object [("\"k\"", .array [.number "-0.5", .null])]).IsText
      " \x7b\t\"k\"\r\n:[ -0.5 ,null]\x7d\n" := by
    constructor
    · exact ⟨by decide, ⟨(Lexeme.isNumber_of_number? hnumber).1, trivial, trivial⟩, trivial⟩
    · exact .cons (g := [' ']) (by decide) nofun <| .cons (g := ['\t']) (by decide) nofun <|
        .cons (g := ['\r', '\n']) (by decide) nofun <| .cons (g := []) (by decide) nofun <|
        .cons (g := [' ']) (by decide) nofun <| .cons (g := [' ']) (by decide) nofun <|
        .cons (g := []) (by decide) nofun <| .cons (g := []) (by decide) nofun <|
        .cons (g := []) (by decide) nofun <| .nil (g := ['\n']) (by decide)
  exact ⟨htext, (format_eq_pretty htext).trans (by decide)⟩

end JsonText
