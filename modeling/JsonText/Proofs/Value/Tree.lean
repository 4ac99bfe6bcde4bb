-- SUMMARY: The JSON tree of a value, as a documented writer spells it.
import JsonText.Except
import JsonText.Proofs.Decimal.Spelling
import JsonText.Proofs.Document.Compact
import JsonText.Proofs.Lexeme.Longest
import JsonText.Proofs.Value.Documented

/-!
# The tree of a value

`Writer.document` says which JSON tree a value stands for. Strings, keys and numbers
are spelled in it as the writer spells them, and a part that cannot be written is the
error that the writer gives for it. What a documented writer writes for a value is the
compact text of this tree, and the tree is well spelled.
-/

namespace JsonText

namespace Writer

variable (w : Writer)

mutual

/-- The JSON tree of a value. -/
def document : Value → Except w.Error Document
  | .bool b => .ok (.bool b)
  | .int n => .ok (.number (toString n))
  | .float x =>
    if x.isFinite then .number <$> w.write (.float x) else .ok .null
  | .char c => .string <$> w.write (.char c)
  | .str s => .string <$> w.write (.str s)
  | .collected s => .string <$> w.write (.collected s)
  | .unitVariant name => .string <$> w.write (.unitVariant name)
  | .bytes bs => .ok (.array (bs.map fun b => .number (toString b.toNat)))
  | .absent | .unit | .unitStruct => .ok .null
  | .present v | .newtypeStruct v => document v
  | .seq vs | .tuple vs | .tupleStruct vs => .array <$> items vs
  | .map es => .object <$> entries es
  | .struct fs => .object <$> fields fs
  | .newtypeVariant name v => do
    let key ← w.key (.str name)
    let d ← document v
    return .object [(key, d)]
  | .tupleVariant name vs => do
    let key ← w.key (.str name)
    let ds ← items vs
    return .object [(key, .array ds)]
  | .structVariant name fs => do
    let key ← w.key (.str name)
    let ms ← fields fs
    return .object [(key, .object ms)]
  | .failing message => .error (w.custom message)

/-- The trees of items. -/
def items : List Value → Except w.Error (List Document)
  | [] => .ok []
  | v :: vs => do
    let d ← document v
    let ds ← items vs
    return d :: ds

/-- Named fields as the members of an object. -/
def fields : List (String × Value) → Except w.Error (List (String × Document))
  | [] => .ok []
  | (name, v) :: fs => do
    let key ← w.key (.str name)
    let d ← document v
    let ms ← fields fs
    return (key, d) :: ms

/-- Entries as the members of an object. -/
def entries : List (Value × Value) → Except w.Error (List (String × Document))
  | [] => .ok []
  | (k, v) :: es => do
    let key ← w.key k
    let d ← document v
    let ms ← entries es
    return (key, d) :: ms

end

end Writer

/-! ## The compact text of a container -/

namespace Document

open Token (concat concat_nil concat_cons concat_append)
open Writer (member)

/-- Texts behind commas, the first of them without its comma. -/
theorem intercalate_map_cons {α : Type} {f : α → String} (rest : List α → String)
    (hnil : rest [] = "") (hcons : ∀ b as, rest (b :: as) = "," ++ f b ++ rest as) (a : α)
    (as : List α) : ",".intercalate ((a :: as).map f) = f a ++ rest as := by
  induction as generalizing a with
  | nil => rw [List.map_singleton, String.intercalate_singleton, hnil, String.append_empty]
  | cons b as ih =>
      have htail := ih b
      rw [List.map_cons] at htail
      rw [List.map_cons, List.map_cons, String.intercalate_cons_cons, htail, hcons]
      simp only [String.append_assoc]

theorem compact_number (s : String) : (number s).compact = s := by
  rw [compact, addCompact, String.empty_append]

theorem compact_string (s : String) : (string s).compact = s := by
  rw [compact, addCompact, String.empty_append]

theorem compact_array (ds : List Document) :
    (array ds).compact = Writer.array (ds.map compact) := by
  cases ds with
  | nil => rfl
  | cons d ds =>
      have hrest : ∀ e es, concat (itemTokens (e :: es)) =
          "," ++ e.compact ++ concat (itemTokens es) := by
        intro e es
        rw [itemTokens, concat_append, concat_cons, e.compact_eq_concat]
      rw [Writer.array, intercalate_map_cons (fun es => concat (itemTokens es)) rfl hrest,
        compact_eq_concat, compact_eq_concat, tokens, concat_append, concat_append, concat_cons]
      simp only [String.append_assoc]
      rfl

theorem compact_object (ms : List (String × Document)) :
    (object ms).compact = Writer.object (ms.map fun m => member m.1 m.2.compact) := by
  cases ms with
  | nil => rfl
  | cons m ms =>
      have hrest : ∀ n ns, concat (memberTokens (n :: ns)) =
          "," ++ member n.1 n.2.compact ++ concat (memberTokens ns) := by
        intro n ns
        rw [memberTokens, concat_append, concat_cons, concat_cons, concat_cons, member,
          n.2.compact_eq_concat]
        simp only [String.append_assoc]
      rw [Writer.object, intercalate_map_cons (fun ns => concat (memberTokens ns)) rfl hrest,
        compact_eq_concat, tokens, concat_append, concat_append, concat_cons, concat_cons,
        concat_cons, member, compact_eq_concat]
      simp only [String.append_assoc]
      rfl

end Document

/-! ## What a documented writer writes -/

namespace Writer

open Escape (Quotes)
open Document (WellSpelledItems WellSpelledMembers compact_number compact_string compact_array
  compact_object)
open JsonText.Except (exists_of_bind_eq_ok exists_of_map_eq_ok)

variable {w : Writer}

namespace Documented

mutual

/-- The text of a value is the compact text of its tree. -/
theorem write_eq (hw : w.Documented) : ∀ v : Value,
    w.write v = Document.compact <$> w.document v
  | .bool b => hw.bool b
  | .int n => by
      rw [hw.int, document, Except.map_ok, compact_number]
  | .float x => by
      rw [document]
      split
      · rw [Functor.map_map]
        simp only [compact_number, id_map']
      · next hx => exact hw.notFinite (Bool.eq_false_iff.mpr hx)
  | .char _ | .str _ | .collected _ | .unitVariant _ => by
      rw [document, Functor.map_map]
      simp only [compact_string, id_map']
  | .bytes bs => by
      rw [hw.write_bytes, document, Except.map_ok, compact_array, List.map_map]
      simp only [Function.comp_def, compact_number]
  | .absent | .unit | .unitStruct => hw.null rfl
  | .present v => by rw [hw.present, document, hw.write_eq v]
  | .newtypeStruct v => by rw [hw.newtypeStruct, document, hw.write_eq v]
  | .seq vs | .tuple vs | .tupleStruct vs => by
      rw [hw.sequence rfl, hw.mapM_write_eq vs, document]
      simp only [Functor.map_map, compact_array]
  | .map es => by
      rw [hw.map, hw.mapM_entry_eq es, document]
      simp only [Functor.map_map, compact_object]
  | .struct fs => by
      rw [hw.struct, hw.map, hw.mapM_field_eq fs, document]
      simp only [Functor.map_map, compact_object]
  | .newtypeVariant name v => by
      rw [hw.newtypeVariant, hw.write_case, hw.write_eq v, document]
      simp only [map_bind, bind_map_left, map_pure, compact_object, List.map_cons, List.map_nil]
  | .tupleVariant name vs => by
      rw [hw.tupleVariant, hw.write_case, hw.sequence rfl, hw.mapM_write_eq vs, document]
      simp only [map_bind, bind_map_left, map_pure, compact_object, compact_array, List.map_cons,
        List.map_nil]
  | .structVariant name fs => by
      rw [hw.structVariant, hw.write_case, hw.struct, hw.map, hw.mapM_field_eq fs, document]
      simp only [map_bind, bind_map_left, map_pure, compact_object, List.map_cons, List.map_nil]
  | .failing message => hw.failing message

theorem mapM_write_eq (hw : w.Documented) : ∀ vs : List Value,
    vs.mapM w.write = List.map Document.compact <$> w.items vs
  | [] => rfl
  | v :: vs => by
      rw [List.mapM_cons, hw.write_eq v, hw.mapM_write_eq vs, items]
      simp only [map_bind, bind_map_left, map_pure, List.map_cons]

theorem mapM_field_eq (hw : w.Documented) : ∀ fs : List (String × Value),
    (fs.map fun f => (Value.str f.1, f.2)).mapM w.entry =
      List.map (fun m => member m.1 m.2.compact) <$> w.fields fs
  | [] => rfl
  | (name, v) :: fs => by
      rw [List.map_cons, List.mapM_cons, entry, hw.write_eq v, hw.mapM_field_eq fs, fields]
      simp only [map_bind, bind_assoc, pure_bind, bind_map_left, map_pure, List.map_cons]

theorem mapM_entry_eq (hw : w.Documented) : ∀ es : List (Value × Value),
    es.mapM w.entry = List.map (fun m => member m.1 m.2.compact) <$> w.entries es
  | [] => rfl
  | (k, v) :: es => by
      rw [List.mapM_cons, entry, hw.write_eq v, hw.mapM_entry_eq es, entries]
      simp only [map_bind, bind_assoc, pure_bind, bind_map_left, map_pure, List.map_cons]

end

/-! ## The tree is well spelled -/

theorem quotes_of_write (hw : w.Documented) {s q : String} (h : w.write (.str s) = .ok q) :
    Quotes s q := by
  obtain ⟨q', hq', hquotes⟩ := hw.str s
  obtain rfl : q' = q := Except.ok.inj (hq'.symm.trans h)
  exact hquotes

theorem isString_of_write (hw : w.Documented) {v : Value} {s q : String} (hv : v.text? = some s)
    (h : w.write v = .ok q) : Escape.isString q = true := by
  rw [hw.text hv] at h
  exact (hw.quotes_of_write h).isString

/-- No character of a number has to be escaped. -/
theorem isString_of_isNumber {s : String} (h : Lexeme.IsNumber s.toList) :
    Escape.isString ("\"" ++ s ++ "\"") = true := by
  refine (Escape.quotes_raw fun c hc => ?_).isString
  rcases h.isNumeral_of_mem hc with hdigit | hmark
  · simp only [Char.isDigit, Bool.and_eq_true, decide_eq_true_eq, ge_iff_le,
      UInt32.le_iff_toNat_le] at hdigit
    refine ⟨?_, ?_, Nat.le_trans (by decide) hdigit.1⟩ <;> rintro rfl <;>
      exact absurd hdigit (by decide)
  · simp only [List.mem_cons, List.not_mem_nil, or_false] at hmark
    rcases hmark with rfl | rfl | rfl | rfl | rfl <;> decide

/-- Every key is a well-formed string. -/
theorem isString_of_key (hw : w.Documented) {k : Value} {key : String} (h : w.key k = .ok key) :
    Escape.isString key = true := by
  by_cases hk : k.unwrap.IsKeyLike
  · rw [← hw.key_unwrap] at h
    cases hv : k.unwrap with rw [hv] at h hk
    | str _ | char _ | collected _ | unitVariant _ =>
        rw [hw.key_text rfl] at h
        exact (hw.quotes_of_write h).isString
    | bool b =>
        obtain rfl : _ = key := Except.ok.inj (hw.key_bool b ▸ h)
        cases b <;> decide
    | int n =>
        obtain rfl : _ = key := Except.ok.inj (hw.key_int n ▸ h)
        exact isString_of_isNumber (Decimal.isNumber_toString n)
    | float x =>
        cases hx : x.isFinite with
        | true =>
            obtain ⟨s, hs, hnumber⟩ := hw.finite hx
            rw [hw.key_finite hx, hs] at h
            obtain rfl : _ = key := Except.ok.inj h
            exact isString_of_isNumber hnumber
        | false =>
            obtain ⟨e, he, -⟩ := hw.key_notFinite hx
            rw [he] at h
            cases h
    | failing message =>
        rw [hw.key_failing] at h
        cases h
    | _ => exact hk.elim
  · obtain ⟨e, he, -⟩ := hw.key_other hk
    rw [he] at h
    cases h

theorem wellSpelledItems_bytes (bs : List UInt8) :
    WellSpelledItems (bs.map fun b => .number (toString b.toNat)) := by
  induction bs with
  | nil => trivial
  | cons b bs ih => exact ⟨Decimal.isNumber_toString b.toNat, ih⟩

mutual

theorem wellSpelled_of_document (hw : w.Documented) : ∀ {v : Value} {d : Document},
    w.document v = .ok d → d.WellSpelled
  | .bool _, _, rfl | .absent, _, rfl | .unit, _, rfl | .unitStruct, _, rfl => trivial
  | .int n, _, rfl => Decimal.isNumber_toString n
  | .float x, d, h => by
      rw [document] at h
      split at h
      · next hx =>
          obtain ⟨s, hs, rfl⟩ := exists_of_map_eq_ok h
          obtain ⟨s', hs', hnumber⟩ := hw.finite hx
          obtain rfl : s' = s := Except.ok.inj (hs'.symm.trans hs)
          exact hnumber
      · obtain rfl := Except.ok.inj h
        trivial
  | .str _, d, h | .char _, d, h | .collected _, d, h | .unitVariant _, d, h => by
      obtain ⟨q, hq, rfl⟩ := exists_of_map_eq_ok h
      exact hw.isString_of_write rfl hq
  | .bytes bs, _, rfl => wellSpelledItems_bytes bs
  | .present v, _, h | .newtypeStruct v, _, h => hw.wellSpelled_of_document (v := v) h
  | .seq vs, d, h | .tuple vs, d, h | .tupleStruct vs, d, h => by
      obtain ⟨ds, hds, rfl⟩ := exists_of_map_eq_ok h
      exact hw.wellSpelledItems_of_items hds
  | .map es, d, h => by
      obtain ⟨ms, hms, rfl⟩ := exists_of_map_eq_ok h
      exact hw.wellSpelledMembers_of_entries hms
  | .struct fs, d, h => by
      obtain ⟨ms, hms, rfl⟩ := exists_of_map_eq_ok h
      exact hw.wellSpelledMembers_of_fields hms
  | .newtypeVariant name v, d, h => by
      obtain ⟨key, hkey, h⟩ := exists_of_bind_eq_ok h
      obtain ⟨d', hd', h⟩ := exists_of_bind_eq_ok h
      obtain rfl := Except.ok.inj h
      exact ⟨hw.isString_of_key hkey, hw.wellSpelled_of_document hd', trivial⟩
  | .tupleVariant name vs, d, h => by
      obtain ⟨key, hkey, h⟩ := exists_of_bind_eq_ok h
      obtain ⟨ds, hds, h⟩ := exists_of_bind_eq_ok h
      obtain rfl := Except.ok.inj h
      exact ⟨hw.isString_of_key hkey, hw.wellSpelledItems_of_items hds, trivial⟩
  | .structVariant name fs, d, h => by
      obtain ⟨key, hkey, h⟩ := exists_of_bind_eq_ok h
      obtain ⟨ms, hms, h⟩ := exists_of_bind_eq_ok h
      obtain rfl := Except.ok.inj h
      exact ⟨hw.isString_of_key hkey, hw.wellSpelledMembers_of_fields hms, trivial⟩

theorem wellSpelledItems_of_items (hw : w.Documented) : ∀ {vs : List Value} {ds : List Document},
    w.items vs = .ok ds → WellSpelledItems ds
  | [], _, rfl => trivial
  | v :: vs, ds, h => by
      obtain ⟨d, hd, h⟩ := exists_of_bind_eq_ok h
      obtain ⟨ds', hds, h⟩ := exists_of_bind_eq_ok h
      obtain rfl := Except.ok.inj h
      exact ⟨hw.wellSpelled_of_document hd, hw.wellSpelledItems_of_items hds⟩

theorem wellSpelledMembers_of_fields (hw : w.Documented) : ∀ {fs : List (String × Value)}
    {ms : List (String × Document)}, w.fields fs = .ok ms → WellSpelledMembers ms
  | [], _, rfl => trivial
  | (name, v) :: fs, ms, h => by
      obtain ⟨key, hkey, h⟩ := exists_of_bind_eq_ok h
      obtain ⟨d, hd, h⟩ := exists_of_bind_eq_ok h
      obtain ⟨ms', hms, h⟩ := exists_of_bind_eq_ok h
      obtain rfl := Except.ok.inj h
      exact ⟨hw.isString_of_key hkey, hw.wellSpelled_of_document hd,
        hw.wellSpelledMembers_of_fields hms⟩

theorem wellSpelledMembers_of_entries (hw : w.Documented) : ∀ {es : List (Value × Value)}
    {ms : List (String × Document)}, w.entries es = .ok ms → WellSpelledMembers ms
  | [], _, rfl => trivial
  | (k, v) :: es, ms, h => by
      obtain ⟨key, hkey, h⟩ := exists_of_bind_eq_ok h
      obtain ⟨d, hd, h⟩ := exists_of_bind_eq_ok h
      obtain ⟨ms', hms, h⟩ := exists_of_bind_eq_ok h
      obtain rfl := Except.ok.inj h
      exact ⟨hw.isString_of_key hkey, hw.wellSpelled_of_document hd,
        hw.wellSpelledMembers_of_entries hms⟩

end

end Documented

end Writer

end JsonText
