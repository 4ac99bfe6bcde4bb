-- SUMMARY: What a writer of compact JSON is documented to do.
import JsonText.Document.Basic
import JsonText.Proofs.Document.Escape
import JsonText.Proofs.Lexeme.Number
import JsonText.Value.Serialize

/-!
# Documented writers

All that is assumed of a writer is named here, a law for each kind of value. How it
spells a finite number or escapes a character is left open within what JSON allows.
A value that holds others is written from the texts of these in order, and the first
of them that cannot be written stops the writer.
-/

namespace JsonText

namespace Value

/-- A value without the wrappers around it. -/
def unwrap : Value → Value
  | present v | newtypeStruct v => v.unwrap
  | v => v

/-- The value is written as `null`. -/
def isNull : Value → Bool
  | absent | unit | unitStruct => true
  | _ => false

/-- The items of a value that is written as an array of them. -/
def items? : Value → Option (List Value)
  | seq vs | tuple vs | tupleStruct vs => some vs
  | _ => none

/-- The text of a value that is written as a string. -/
def text? : Value → Option String
  | str s | collected s | unitVariant s => some s
  | char c => some (String.singleton c)
  | _ => none

/-- Texts, truth values and numbers are asked for their text as a key, and a value that refuses
says so itself. -/
def IsKeyLike : Value → Prop
  | bool _ | int _ | float _ | char _ | str _ | collected _ | unitVariant _ | failing _ => True
  | _ => False

end Value

namespace Writer

/-- The text of an entry. The key comes before its value. -/
def entry (w : Writer) (e : Value × Value) : Except w.Error String := do
  let key ← w.key e.1
  let text ← w.write e.2
  return member key text

/-- The writer does what writers of compact JSON are documented to do. -/
structure Documented (w : Writer) : Prop where
  -- Scalars
  bool (b : Bool) : w.write (.bool b) = .ok (Document.boolWord b)
  int (n : Int) : w.write (.int n) = .ok (toString n)
  finite {x : Binary} (hx : x.isFinite = true) :
    ∃ s, w.write (.float x) = .ok s ∧ Lexeme.IsNumber s.toList
  notFinite {x : Binary} (hx : x.isFinite = false) : w.write (.float x) = .ok "null"
  str (s : String) : ∃ q, w.write (.str s) = .ok q ∧ Escape.Quotes s q
  text {v : Value} {s : String} (hv : v.text? = some s) : w.write v = w.write (.str s)
  null {v : Value} (hv : v.isNull = true) : w.write v = .ok "null"
  -- Refusals
  failing (message : String) : w.write (.failing message) = .error (w.custom message)
  display_custom {message : String} (h : ¬ " at line ".toList <:+: message.toList) :
    w.display (w.custom message) = message
  -- Wrappers
  present (v : Value) : w.write (.present v) = w.write v
  newtypeStruct (v : Value) : w.write (.newtypeStruct v) = w.write v
  -- Sequences
  sequence {v : Value} {vs : List Value} (hv : v.items? = some vs) :
    w.write v = array <$> vs.mapM w.write
  bytes (bs : List UInt8) : w.write (.bytes bs) = w.write (.seq (bs.map fun b => .int b.toNat))
  -- Maps
  map (es : List (Value × Value)) : w.write (.map es) = object <$> es.mapM w.entry
  struct (fs : List (String × Value)) :
    w.write (.struct fs) = w.write (.map (fs.map fun f => (.str f.1, f.2)))
  newtypeVariant (name : String) (v : Value) :
    w.write (.newtypeVariant name v) = w.write (.map [(.str name, v)])
  tupleVariant (name : String) (vs : List Value) :
    w.write (.tupleVariant name vs) = w.write (.map [(.str name, .seq vs)])
  structVariant (name : String) (fs : List (String × Value)) :
    w.write (.structVariant name fs) = w.write (.map [(.str name, .struct fs)])
  -- Keys
  key_text {k : Value} {s : String} (hk : k.text? = some s) : w.key k = w.write (.str s)
  key_bool (b : Bool) : w.key (.bool b) = .ok ("\"" ++ Document.boolWord b ++ "\"")
  key_int (n : Int) : w.key (.int n) = .ok ("\"" ++ toString n ++ "\"")
  key_finite {x : Binary} (hx : x.isFinite = true) :
    w.key (.float x) = (fun s => "\"" ++ s ++ "\"") <$> w.write (.float x)
  key_notFinite {x : Binary} (hx : x.isFinite = false) : ∃ e, w.key (.float x) = .error e ∧
    w.display e = "float key must be finite (got NaN or +/-inf)"
  key_failing (message : String) : w.key (.failing message) = .error (w.custom message)
  key_present (v : Value) : w.key (.present v) = w.key v
  key_newtypeStruct (v : Value) : w.key (.newtypeStruct v) = w.key v
  key_other {k : Value} (hk : ¬ k.unwrap.IsKeyLike) : ∃ e, w.key k = .error e ∧
    w.display e = "key must be a string"

namespace Documented

variable {w : Writer}

/-- A case of a choice is written as an object with one member. -/
theorem write_case (hw : w.Documented) (name : String) (v : Value) :
    w.write (.map [(.str name, v)]) = (do
      let key ← w.key (.str name)
      let text ← w.write v
      return object [member key text]) := by
  rw [hw.map, List.mapM_cons, List.mapM_nil, entry]
  simp only [map_bind, bind_assoc, pure_bind, map_pure]

theorem write_bytes (hw : w.Documented) (bs : List UInt8) :
    w.write (.bytes bs) = .ok (array (bs.map fun b => toString b.toNat)) := by
  have hitems : (bs.map fun b => Value.int b.toNat).mapM w.write =
      .ok (bs.map fun b => toString b.toNat) := by
    induction bs with
    | nil => rfl
    | cons b bs ih =>
        rw [List.map_cons, List.mapM_cons, hw.int, ih]
        rfl
  rw [hw.bytes, hw.sequence rfl, hitems]
  rfl

/-- Wrappers make no difference to a key. -/
theorem key_unwrap (hw : w.Documented) (k : Value) : w.key k.unwrap = w.key k := by
  fun_induction Value.unwrap k with
  | case1 v ih => exact ih.trans (hw.key_present v).symm
  | case2 v ih => exact ih.trans (hw.key_newtypeStruct v).symm
  | case3 v _ _ => rfl

end Documented

end Writer

end JsonText
