-- SUMMARY: Writing a value fails with the first of its parts that cannot be written.
import JsonText.Except
import JsonText.Proofs.Value.Standard

/-!
# Values that cannot be written

Only keys and values without parts of their own can be at fault. `Value.parts`
lists both in the order in which they are written, whether or not they can be,
and `Part.Fails` says of a single part why it cannot be written. Writing then
comes down to a search in that list: the first part that fails decides, for
both texts of a value, and what comes behind it is never looked at.
-/

namespace JsonText

open JsonText.Except (error? error?_eq_some_iff error?_bind error?_return error?_map)

/-! ## Parts -/

/-- What is written in one piece: a key, or a value that holds no other values. -/
inductive Part where
  | key (k : Value)
  | scalar (v : Value)

namespace Value

mutual

/-- The parts of a value in writing order, an item or a field before the next one and a key
before its value. The names of fields and of cases are texts and always written. -/
def parts : Value → List Part
  | present v | newtypeStruct v | newtypeVariant _ v => v.parts
  | seq vs | tuple vs | tupleStruct vs | tupleVariant _ vs => partsOfItems vs
  | map es => partsOfEntries es
  | struct fs | structVariant _ fs => partsOfFields fs
  | v => [.scalar v]

/-- The parts of items. -/
def partsOfItems : List Value → List Part
  | [] => []
  | v :: vs => v.parts ++ partsOfItems vs

/-- The parts of named fields. -/
def partsOfFields : List (String × Value) → List Part
  | [] => []
  | (_, v) :: fs => v.parts ++ partsOfFields fs

/-- The parts of entries. -/
def partsOfEntries : List (Value × Value) → List Part
  | [] => []
  | (k, v) :: es => .key k :: (v.parts ++ partsOfEntries es)

end

end Value

namespace Part

variable (w : Writer)

/-- The part cannot be written, for the reason given. A part that refuses is reported in the
writer's words for its message. -/
inductive Fails : Part → String → Prop where
  | refused (message : String) : Fails (.scalar (.failing message)) (w.display (w.custom message))
  | keyRefused {k : Value} {message : String} (hk : k.unwrap = .failing message) :
      Fails (.key k) (w.display (w.custom message))
  | keyNotFinite {k : Value} {x : Binary} (hk : k.unwrap = .float x) (hx : x.isFinite = false) :
      Fails (.key k) "float key must be finite (got NaN or +/-inf)"
  | keyNotString {k : Value} (hk : ¬ k.unwrap.IsKeyLike) : Fails (.key k) "key must be a string"

/-- The part cannot be written, for whatever reason. -/
def Unwritable (p : Part) : Prop :=
  ∃ reason, p.Fails w reason

/-- The error of a part. -/
def error? : Part → Option w.Error
  | key k => Except.error? (w.key k)
  | scalar (.failing message) => some (w.custom message)
  | scalar _ => none

variable {w}

/-- A message that speaks of no line is the reason itself. -/
theorem fails_refused (hw : w.Documented) {message : String}
    (h : ¬ " at line ".toList <:+: message.toList) :
    Fails w (.scalar (.failing message)) message := by
  have hrefused := Fails.refused (w := w) message
  rwa [hw.display_custom h] at hrefused

/-- The reason is the report of the error. -/
theorem Fails.exists_error? (hw : w.Documented) {p : Part} {reason : String}
    (h : p.Fails w reason) : ∃ e, p.error? w = some e ∧ w.display e = reason := by
  cases h with
  | refused message => exact ⟨_, rfl, rfl⟩
  | keyRefused hk =>
      refine ⟨_, ?_, rfl⟩
      rw [Part.error?, error?_eq_some_iff, ← hw.key_unwrap, hk, hw.key_failing]
  | keyNotFinite hk hx =>
      obtain ⟨e, he, hreason⟩ := hw.key_notFinite hx
      refine ⟨e, ?_, hreason⟩
      rw [Part.error?, error?_eq_some_iff, ← hw.key_unwrap, hk, he]
  | keyNotString hk =>
      obtain ⟨e, he, hreason⟩ := hw.key_other hk
      exact ⟨e, error?_eq_some_iff.mpr he, hreason⟩

theorem fails_of_key (hw : w.Documented) {k : Value} {e : w.Error} (h : w.key k = .error e) :
    (Part.key k).Fails w (w.display e) := by
  by_cases hk : k.unwrap.IsKeyLike
  · rw [← hw.key_unwrap] at h
    cases hv : k.unwrap with rw [hv] at h hk
    | failing message =>
        obtain rfl := Except.error.inj (hw.key_failing message ▸ h)
        exact .keyRefused hv
    | float x =>
        cases hx : x.isFinite with
        | true =>
            obtain ⟨s, hs, -⟩ := hw.finite hx
            rw [hw.key_finite hx, hs] at h
            cases h
        | false =>
            obtain ⟨e', he', hreason⟩ := hw.key_notFinite hx
            obtain rfl := Except.error.inj (he'.symm.trans h)
            exact hreason ▸ .keyNotFinite hv hx
    | str _ | char _ | collected _ | unitVariant _ =>
        obtain ⟨q, hq, -⟩ := hw.str _
        rw [hw.key_text rfl, hq] at h
        cases h
    | bool b =>
        rw [hw.key_bool] at h
        cases h
    | int n =>
        rw [hw.key_int] at h
        cases h
    | _ => exact hk.elim
  · obtain ⟨e', he', hreason⟩ := hw.key_other hk
    obtain rfl := Except.error.inj (he'.symm.trans h)
    exact hreason ▸ .keyNotString hk

theorem fails_of_error? (hw : w.Documented) {p : Part} {e : w.Error} (h : p.error? w = some e) :
    p.Fails w (w.display e) := by
  cases p with
  | key k => exact fails_of_key hw (error?_eq_some_iff.mp h)
  | scalar v =>
      cases v with
      | failing message =>
          obtain rfl := Option.some.inj h
          exact .refused message
      | _ => cases h

theorem unwritable_iff (hw : w.Documented) {p : Part} :
    p.Unwritable w ↔ ∃ e, p.error? w = some e := by
  constructor
  · rintro ⟨reason, h⟩
    obtain ⟨e, he, -⟩ := h.exists_error? hw
    exact ⟨e, he⟩
  · rintro ⟨e, he⟩
    exact ⟨w.display e, fails_of_error? hw he⟩

end Part

/-! ## The error of a value -/

namespace Writer.Documented

variable {w : Writer}

theorem error?_write_str (hw : w.Documented) (s : String) : error? (w.write (.str s)) = none := by
  obtain ⟨q, hq, -⟩ := hw.str s
  rw [hq]
  rfl

theorem error?_write_case (hw : w.Documented) (name : String) (v : Value) :
    error? (w.write (.map [(.str name, v)])) = error? (w.write v) := by
  obtain ⟨q, hq, -⟩ := hw.str name
  rw [hw.write_case, hw.key_text rfl, hq]
  exact error?_return

/-- A key is written before its value. -/
theorem error?_entry (k v : Value) :
    error? (w.entry (k, v)) = (error? (w.key k)).or (error? (w.write v)) :=
  error?_bind fun _ => error?_return

mutual

/-- Writing a value ends with the error of the first part that has one. -/
theorem error?_write (hw : w.Documented) : ∀ v : Value,
    error? (w.write v) = v.parts.findSome? (Part.error? w)
  | .bool b => by rw [hw.bool]; rfl
  | .int n => by rw [hw.int]; rfl
  | .float x => by
      cases hx : x.isFinite with
      | true =>
          obtain ⟨s, hs, -⟩ := hw.finite hx
          rw [hs]
          rfl
      | false => rw [hw.notFinite hx]; rfl
  | .str _ => hw.error?_write_str _
  | .char _ | .collected _ | .unitVariant _ => by
      rw [hw.text rfl, hw.error?_write_str]
      rfl
  | .bytes bs => by rw [hw.write_bytes]; rfl
  | .absent | .unit | .unitStruct => by rw [hw.null rfl]; rfl
  | .present v => by rw [hw.present, Value.parts, hw.error?_write v]
  | .newtypeStruct v => by rw [hw.newtypeStruct, Value.parts, hw.error?_write v]
  | .seq vs | .tuple vs | .tupleStruct vs => by
      rw [hw.sequence rfl, error?_map, Value.parts, hw.error?_items vs]
  | .map es => by rw [hw.map, error?_map, Value.parts, hw.error?_entries es]
  | .struct fs => by rw [hw.struct, hw.map, error?_map, Value.parts, hw.error?_fields fs]
  | .newtypeVariant name v => by
      rw [hw.newtypeVariant, hw.error?_write_case, Value.parts, hw.error?_write v]
  | .tupleVariant name vs => by
      rw [hw.tupleVariant, hw.error?_write_case, hw.sequence rfl, error?_map, Value.parts,
        hw.error?_items vs]
  | .structVariant name fs => by
      rw [hw.structVariant, hw.error?_write_case, hw.struct, hw.map, error?_map, Value.parts,
        hw.error?_fields fs]
  | .failing message => by rw [hw.failing]; rfl

theorem error?_items (hw : w.Documented) : ∀ vs : List Value,
    error? (vs.mapM w.write) = (Value.partsOfItems vs).findSome? (Part.error? w)
  | [] => rfl
  | v :: vs => by
      rw [List.mapM_cons, Value.partsOfItems, List.findSome?_append, ← hw.error?_write v,
        ← hw.error?_items vs]
      exact error?_bind fun text => error?_return

theorem error?_fields (hw : w.Documented) : ∀ fs : List (String × Value),
    error? ((fs.map fun f => (Value.str f.1, f.2)).mapM w.entry) =
      (Value.partsOfFields fs).findSome? (Part.error? w)
  | [] => rfl
  | (name, v) :: fs => by
      have hentry : error? (w.entry (.str name, v)) = error? (w.write v) := by
        rw [error?_entry, hw.key_text rfl, hw.error?_write_str, Option.none_or]
      rw [List.map_cons, List.mapM_cons, Value.partsOfFields, List.findSome?_append,
        ← hw.error?_write v, ← hw.error?_fields fs, ← hentry]
      exact error?_bind fun text => error?_return

theorem error?_entries (hw : w.Documented) : ∀ es : List (Value × Value),
    error? (es.mapM w.entry) = (Value.partsOfEntries es).findSome? (Part.error? w)
  | [] => rfl
  | (k, v) :: es => by
      have hentry : error? (w.entry (k, v)) = (Part.error? w (.key k)).or (error? (w.write v)) :=
        error?_entry k v
      rw [List.mapM_cons, Value.partsOfEntries, ← List.singleton_append, ← List.append_assoc,
        List.findSome?_append, List.findSome?_append, List.findSome?_singleton,
        ← hw.error?_write v, ← hw.error?_entries es, ← hentry]
      exact error?_bind fun text => error?_return

end

/-- Up to the first part that fails nothing decides but the parts that are written. -/
theorem write_eq_error_of_parts (hw : w.Documented) {v : Value} {ps qs : List Part} {p : Part}
    {e : w.Error} (hv : v.parts = ps ++ p :: qs) (hps : ∀ q ∈ ps, ¬ q.Unwritable w)
    (hp : p.error? w = some e) : w.write v = .error e := by
  rw [← error?_eq_some_iff, hw.error?_write, hv, List.findSome?_eq_some_iff]
  refine ⟨ps, p, qs, rfl, hp, fun q hq => ?_⟩
  exact Option.eq_none_iff_forall_ne_some.mpr fun e he =>
    hps q hq ((Part.unwritable_iff hw).mpr ⟨e, he⟩)

theorem exists_write_eq_error_iff (hw : w.Documented) {v : Value} :
    (∃ e, w.write v = .error e) ↔ ∃ p ∈ v.parts, p.Unwritable w := by
  simp only [← error?_eq_some_iff, hw.error?_write]
  constructor
  · rintro ⟨e, he⟩
    obtain ⟨p, hp, he⟩ := List.exists_of_findSome?_eq_some he
    exact ⟨p, hp, (Part.unwritable_iff hw).mpr ⟨e, he⟩⟩
  · rintro ⟨p, hp, hu⟩
    obtain ⟨e, he⟩ := (Part.unwritable_iff hw).mp hu
    apply Option.isSome_iff_exists.mp
    exact List.findSome?_isSome_iff.mpr ⟨p, hp, he ▸ rfl⟩

end Writer.Documented

/-! ## Both texts of a value -/

section Texts

variable {w : Writer} {v : Value}

/-- The error of the writer becomes the error of either text. -/
theorem serialize_of_write_eq_error {e : w.Error} (h : w.write v = .error e) :
    serialize w v = .error (.ofWriter w e) ∧ serializeMinified w v = .error (.ofWriter w e) := by
  rw [serialize, serializeMinified, h]
  exact ⟨rfl, rfl⟩

theorem exists_serialize_eq_error_iff :
    (∃ e, serialize w v = .error e) ↔ ∃ e, w.write v = .error e := by
  rw [serialize]
  cases w.write v <;> simp [Except.mapError]

theorem exists_serializeMinified_eq_error_iff :
    (∃ e, serializeMinified w v = .error e) ↔ ∃ e, w.write v = .error e := by
  rw [serializeMinified]
  cases w.write v <;> simp [Except.mapError]

end Texts

/-- Either text of a value is missing exactly if some part of the value cannot be written. Then
the first such part gives the reason for both, in place of any text, and no value that has the
same parts up to there fares better. -/
theorem serialize_first_failure {w : Writer} (hw : w.Documented) (v : Value) :
    ((∃ e, serialize w v = .error e) ↔ ∃ p ∈ v.parts, p.Unwritable w) ∧
      ((∃ e, serializeMinified w v = .error e) ↔ ∃ p ∈ v.parts, p.Unwritable w) ∧
      ∀ ps p qs reason, v.parts = ps ++ p :: qs → (∀ q ∈ ps, ¬ q.Unwritable w) →
        p.Fails w reason →
        ∃ e : FormatterError, e.display = "Serialization failed: " ++ reason ∧
          serialize w v = .error e ∧ serializeMinified w v = .error e ∧
          ∀ u rs, u.parts = ps ++ p :: rs →
            serialize w u = .error e ∧ serializeMinified w u = .error e := by
  rw [exists_serialize_eq_error_iff, exists_serializeMinified_eq_error_iff]
  refine ⟨hw.exists_write_eq_error_iff, hw.exists_write_eq_error_iff, ?_⟩
  intro ps p qs reason hv hps hp
  obtain ⟨e, he, rfl⟩ := hp.exists_error? hw
  have hfirst : ∀ u rs, u.parts = ps ++ p :: rs →
      serialize w u = .error (.ofWriter w e) ∧ serializeMinified w u = .error (.ofWriter w e) :=
    fun u rs hu => serialize_of_write_eq_error (hw.write_eq_error_of_parts hu hps he)
  exact ⟨_, rfl, (hfirst v qs hv).1, (hfirst v qs hv).2, hfirst⟩

/-- An undefined number in a wrapper as a key. It gives the reason although a refusal and another
bad key come behind it, and also in a record where neither does. In front of the bad key, the
refusal gives it. -/
theorem serialize_first_failure_key :
    (∃ e : FormatterError,
      e.display = "Serialization failed: float key must be finite (got NaN or +/-inf)" ∧
      serialize .standard (.seq [.unit, .map [(.str "k", .map
        [(.present (.float (.single 0x7FC00000)), .failing "late")]), (.unit, .bool true)]]) =
          .error e ∧
      serializeMinified .standard (.struct [("a", .unit), ("b", .map [(.str "k", .map
        [(.present (.float (.single 0x7FC00000)), .unit)])])]) = .error e) ∧
    ∃ e : FormatterError, e.display = "Serialization failed: early" ∧
      serialize .standard (.tupleVariant "t" [.failing "early", .map [(.unit, .unit)]]) =
        .error e := by
  have hdocumented := Writer.standard_documented
  have hbefore : ∀ q ∈ [Part.scalar .unit, .key (.str "k")], ¬ q.Unwritable .standard := by
    intro q hq hu
    obtain ⟨e, he⟩ := (Part.unwritable_iff hdocumented).mp hu
    simp only [List.mem_cons, List.not_mem_nil, or_false] at hq
    rcases hq with rfl | rfl <;> cases he
  have hkey : (Part.key (.present (.float (.single 0x7FC00000)))).Fails .standard
      "float key must be finite (got NaN or +/-inf)" := .keyNotFinite rfl (by decide)
  have hearly : (Part.scalar (.failing "early")).Fails .standard "early" :=
    Part.fails_refused hdocumented (by decide)
  obtain ⟨e, hdisplay, hfirst, -, hsame⟩ := (serialize_first_failure hdocumented (.seq [.unit, .map
    [(.str "k", .map [(.present (.float (.single 0x7FC00000)), .failing "late")]),
      (.unit, .bool true)]])).2.2 [.scalar .unit, .key (.str "k")] _ _ _ rfl hbefore hkey
  obtain ⟨e', hdisplay', hfirst', -⟩ := (serialize_first_failure hdocumented (.tupleVariant "t"
    [.failing "early", .map [(.unit, .unit)]])).2.2 [] _ _ _ rfl nofun hearly
  exact ⟨⟨e, hdisplay, hfirst, (hsame _ _ rfl).2⟩, e', hdisplay', hfirst'⟩

end JsonText
