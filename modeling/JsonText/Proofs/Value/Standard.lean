-- SUMMARY: The standard writer does what writers of compact JSON are documented to do.
import JsonText.Proofs.Decimal.Spelling
import JsonText.Proofs.Value.Documented
import JsonText.Standard.Writer

/-!
# The standard writer is documented

The standard writer goes through a value once, with a case for each kind of value.
The documentation relates these cases to each other. What has to be shown is that
texts are quoted as they should be, and that writing items, fields and entries one
after another is writing them in order.
-/

namespace JsonText

namespace Standard

open Escape (Writes WritesAll Quotes)

/-! ## Quoting -/

theorem writes_ofControl {c : Char} (hc : c.toNat < 0x20) : Writes c (ofControl c) := by
  have hdigit : ∀ n, n < 16 → Escape.hexDigit? n.digitChar = some n := by decide
  have hzero : Escape.hexDigit? '0' = some 0 := by decide
  refine .code ?_ hc
  rw [Escape.hexCode?, hzero, hdigit (c.toNat / 16) (by omega), hdigit (c.toNat % 16) (by omega)]
  simp only [Option.bind_eq_bind, Option.bind_some, Option.pure_def, Option.some.injEq,
    Prod.mk.injEq, and_true]
  omega

theorem writes_ofChar (c : Char) : Writes c (ofChar c) := by
  unfold ofChar
  split
  case h_8 hq hb _ _ _ _ _ =>
    split
    · next hc => exact writes_ofControl hc
    · next hc => exact .raw hq hb (Nat.le_of_not_lt hc)
  all_goals exact .letter rfl (by decide)

/-- Every text is put in quotes. -/
theorem quotes_quote (s : String) : Quotes s (quote s) := by
  refine ⟨s.toList.flatMap ofChar, by rw [quote, String.toList_ofList], ?_⟩
  induction s.toList with
  | nil => exact .nil
  | cons c cs ih => exact .cons (writes_ofChar c) ih

theorem write_of_text? {v : Value} {s : String} (h : v.text? = some s) :
    write v = .ok (quote s) := by
  cases v with
  | str _ | collected _ | unitVariant _ | char _ =>
      obtain rfl := Option.some.inj h
      rfl
  | _ => cases h

theorem key_of_text? {k : Value} {s : String} (h : k.text? = some s) :
    key k = .ok (quote s) := by
  cases k with
  | str _ | collected _ | unitVariant _ | char _ =>
      obtain rfl := Option.some.inj h
      rfl
  | _ => cases h

theorem write_of_isNull {v : Value} (h : v.isNull = true) : write v = .ok "null" := by
  cases v with
  | absent | unit | unitStruct => rfl
  | _ => cases h

/-! ## Items, fields and entries -/

theorem writeItems_eq_mapM (vs : List Value) : writeItems vs = vs.mapM write := by
  induction vs with
  | nil => rfl
  | cons v vs ih => rw [writeItems, List.mapM_cons, ih]

theorem write_of_items? {v : Value} {vs : List Value} (h : v.items? = some vs) :
    write v = Writer.array <$> vs.mapM write := by
  rw [← writeItems_eq_mapM]
  cases v with
  | seq _ | tuple _ | tupleStruct _ =>
      obtain rfl := Option.some.inj h
      rfl
  | _ => cases h

theorem writeEntries_eq_mapM (es : List (Value × Value)) :
    writeEntries es = es.mapM Writer.standard.entry := by
  induction es with
  | nil => rfl
  | cons e es ih =>
      rw [writeEntries, List.mapM_cons, ih, Writer.entry, bind_assoc]
      simp only [bind_assoc, pure_bind]
      rfl

theorem writeFields_eq (fs : List (String × Value)) :
    writeFields fs = writeEntries (fs.map fun f => (.str f.1, f.2)) := by
  induction fs with
  | nil => rfl
  | cons f fs ih => rw [writeFields, List.map_cons, writeEntries, ih]; rfl

theorem writeItems_bytes (bs : List UInt8) :
    writeItems (bs.map fun b => .int b.toNat) = .ok (bs.map fun b => toString b.toNat) := by
  induction bs with
  | nil => rfl
  | cons b bs ih =>
      rw [List.map_cons, writeItems, ih]
      rfl

/-- A case of a choice is written as an object with one member. -/
theorem write_case (name : String) (v : Value) :
    write (.map [(.str name, v)]) =
      (do return Writer.object [Writer.member (quote name) (← write v)]) := by
  rw [write, writeEntries, writeEntries]
  cases write v <;> rfl

theorem write_tupleVariant (name : String) (vs : List Value) :
    write (.tupleVariant name vs) = write (.map [(.str name, .seq vs)]) := by
  rw [write_case, write, write]
  cases writeItems vs <;> rfl

theorem write_structVariant (name : String) (fs : List (String × Value)) :
    write (.structVariant name fs) = write (.map [(.str name, .struct fs)]) := by
  rw [write_case, write, write]
  cases writeFields fs <;> rfl

/-! ## Numbers -/

theorem exists_spell?_of_isFinite {x : Binary} (hx : x.isFinite = true) :
    ∃ s, x.spell? = some s :=
  ⟨_, if_pos hx⟩

theorem spell?_of_not_isFinite {x : Binary} (hx : x.isFinite = false) : x.spell? = none :=
  if_neg (Bool.eq_false_iff.mp hx)

/-! ## Refusals -/

theorem splitLast?_go_eq_none {w s : List Char} (h : ¬ w <:+: s) (passed : List Char) :
    splitLast?.go w passed none s = none := by
  induction s generalizing passed with
  | nil => rfl
  | cons c s ih =>
      have hword : Lexeme.word? w (c :: s) = none :=
        if_neg fun hp => h (List.isPrefixOf_iff_prefix.mp hp).isInfix
      rw [splitLast?.go, hword]
      exact ih (fun hs => h (hs.trans (List.infix_cons_iff.mpr (.inr List.infix_rfl)))) _

/-- A message that speaks of no line is reported as it is. -/
theorem report_of_not_infix {message : String} (h : ¬ " at line ".toList <:+: message.toList) :
    report message = message := by
  rw [report, position?, splitLast?, splitLast?_go_eq_none h]
  rfl

/-! ## Keys -/

theorem key_of_not_isKeyLike {k : Value} (hk : ¬ k.unwrap.IsKeyLike) :
    key k = .error .keyNotString := by
  fun_induction Value.unwrap k with
  | case1 v ih => exact ih hk
  | case2 v ih => exact ih hk
  | case3 v hpresent hnewtype =>
      cases v with
      | present v => exact absurd rfl (hpresent v)
      | newtypeStruct v => exact absurd rfl (hnewtype v)
      | bool _ | int _ | float _ | char _ | str _ | collected _ | unitVariant _ | failing _ =>
          exact absurd trivial hk
      | _ => rfl

end Standard

open Standard in
/-- The standard writer does what is documented. -/
theorem Writer.standard_documented : standard.Documented where
  bool _ := rfl
  int _ := rfl
  finite hx := by
    obtain ⟨s, hs⟩ := exists_spell?_of_isFinite hx
    refine ⟨s, ?_, Binary.isNumber_of_spell? hs⟩
    exact congrArg (fun o : Option String => Except.ok (o.getD "null")) hs
  notFinite hx :=
    congrArg (fun o : Option String => Except.ok (o.getD "null")) (spell?_of_not_isFinite hx)
  str s := ⟨_, rfl, quotes_quote s⟩
  text hv := write_of_text? hv
  null hv := write_of_isNull hv
  failing _ := rfl
  display_custom h := report_of_not_infix h
  present _ := rfl
  newtypeStruct _ := rfl
  sequence hv := write_of_items? hv
  bytes bs := (congrArg (array <$> ·) (writeItems_bytes bs)).symm
  map es := congrArg (object <$> ·) (writeEntries_eq_mapM es)
  struct fs := congrArg (object <$> ·) (writeFields_eq fs)
  newtypeVariant name v := (write_case name v).symm
  tupleVariant := write_tupleVariant
  structVariant := write_structVariant
  key_text hk := key_of_text? hk
  key_bool _ := rfl
  key_int _ := rfl
  key_finite {x} hx := by
    obtain ⟨s, hs⟩ := exists_spell?_of_isFinite hx
    change Standard.key (.float x) = _ <$> Except.ok (x.spell?.getD "null")
    rw [Standard.key, hs]
    rfl
  key_notFinite {x} hx := by
    refine ⟨.keyNotFinite, ?_, rfl⟩
    change Standard.key (.float x) = _
    rw [Standard.key, spell?_of_not_isFinite hx]
    rfl
  key_failing _ := rfl
  key_present _ := rfl
  key_newtypeStruct _ := rfl
  key_other hk := ⟨.keyNotString, key_of_not_isKeyLike hk, rfl⟩

end JsonText
