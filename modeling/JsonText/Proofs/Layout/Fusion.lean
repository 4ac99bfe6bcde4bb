-- SUMMARY: The minified layout damages nothing but numbers that stand side by side.
import JsonText.Proofs.Layout.Minify
import JsonText.Proofs.Lexeme.Run
import JsonText.Proofs.Token.Filler

/-!
# Numbers side by side

The minified layout writes nothing between two numbers, so reading it back may
find other numbers there, and leftovers between them. The scanner is then out of
step with the tokens that were written, but never beyond a run of numbers: the
token behind the run is read as it was written.
-/

namespace JsonText

open Token (concat structural tokenize Readable)
open Lexeme

namespace Token

/-! ## Scanning a run -/

/-- The token is a number, or what is left over of one. -/
def IsScrap (t : Token) : Prop :=
  t.kind = .number ∨ t.kind = .unknown ∧ t.text.toList ∈ leftovers

instance : DecidablePred IsScrap := fun t =>
  inferInstanceAs (Decidable (t.kind = .number ∨ t.kind = .unknown ∧ t.text.toList ∈ leftovers))

theorem isScrap_ofChars {m : List Char} (h : IsNumber m) : IsScrap (ofChars m) :=
  .inl (Kind.Spells.ofChars_eq (k := .number) h)

theorem isScrap_of_mem_ofGap {u : List Char} {t : Token} (hu : u = [] ∨ u ∈ leftovers)
    (ht : t ∈ ofGap u) : IsScrap t := by
  obtain ⟨hne, rfl⟩ := mem_ofGap.mp ht
  refine .inr ⟨kind_unknown u, ?_⟩
  rw [toList_text_unknown]
  exact hu.resolve_left hne

/-- Nothing is read in a leftover. -/
theorem free_leftover {u : List Char} (hu : u = [] ∨ u ∈ leftovers) (s : List Char) :
    Free u s := by
  have hall : ∀ v ∈ leftovers, (v.all fun c => Kind.ofLeadChar c = .unknown) = true := by decide
  have hlead : ∀ c ∈ u, Kind.ofLeadChar c = .unknown := by
    rcases hu with rfl | hu
    · exact List.forall_mem_nil _
    · simpa using hall u hu
  clear hu
  induction u with
  | nil => trivial
  | cons c u ih =>
      obtain ⟨hc, hlead⟩ := List.forall_mem_cons.mp hlead
      exact ⟨read?_eq_none_of_ofLeadChar hc _, ih hlead⟩

/-- From a digit of a run, or from the minus before it, a number is read, and a run is left. -/
theorem exists_read?_run_append {v s t : List Char} {d : Char} (hv : v = [] ∨ v = ['-'])
    (hd : d.isDigit = true) (hs : Run s) (ht : ∀ c ∈ t.head?, ¬ IsNumeral c) :
    ∃ m r, v ++ d :: s = m ++ r ∧ IsNumber m ∧ Run r ∧
      read? (m ++ (r ++ t)) = some (m, r ++ t) := by
  have hshort : IsNumber (v ++ [d] ++ [] ++ []) := .mk hv (isInteger_singleton hd) .none .none
  rw [List.append_nil, List.append_nil] at hshort
  obtain ⟨m, r', hnum, -⟩ := hshort.exists_prefix (List.prefix_append _ (s ++ t))
  have hm : IsNumber m := (isNumber_of_number? hnum).1
  have hcut : m ++ r' = v ++ d :: s ++ t := by
    simpa using (cuts_of_number? hnum).1
  -- The number ends within the run, since no numeral follows it.
  have hprefix : m <+: v ++ d :: s := by
    cases t with
    | nil => exact ⟨r', by rw [hcut, List.append_nil]⟩
    | cons c t => exact prefix_of_notMem ⟨r', hcut⟩ fun hc => ht c rfl (hm.isNumeral_of_mem hc)
  obtain ⟨r, hr⟩ := hprefix
  obtain rfl : r' = r ++ t := by
    rw [← hr, List.append_assoc] at hcut
    exact List.append_cancel_left hcut
  refine ⟨m, r, hr.symm, hm, ?_, ?_⟩
  · have hrun : Run ([] ++ (v ++ d :: s)) := .digit (.inl rfl) hv hd hs
    rw [List.nil_append, ← hr] at hrun
    exact hrun.of_number_append hm
  · rw [hm.read?_append, hcut, ← hnum]
    simp

/-- A run is cut up into numbers and leftovers, and the text behind it as if it stood alone. -/
theorem exists_scan_run_append {w t : List Char} (hw : Run w)
    (ht : ∀ c ∈ t.head?, ¬ IsNumeral c) :
    ∃ fs, scan (w ++ t) = fs ++ scan t ∧ ∀ f ∈ fs, IsScrap f := by
  induction hn : w.length using Nat.strongRecOn generalizing w with
  | ind n ih =>
    cases hw with
    | nil => exact ⟨[], rfl, List.forall_mem_nil _⟩
    | @digit u v s d hu hv hd hs =>
        obtain ⟨m, r, hcut, hm, hr, hread⟩ := exists_read?_run_append hv hd hs ht
        have hlt : r.length < n := by
          have := congrArg List.length hcut
          have := List.length_pos_iff.mpr hm.ne_nil
          simp only [List.length_append] at *
          omega
        obtain ⟨fs, hscan, hscrap⟩ := ih r.length hlt hr rfl
        refine ⟨ofGap u ++ ofChars m :: fs, ?_, ?_⟩
        · have hstep := (Cut.lexeme (free_leftover hu _) hread (cut_scan (r ++ t))).eq_scan
          calc scan (u ++ (v ++ d :: s) ++ t)
              = scan (u ++ (m ++ (r ++ t))) := by
                rw [hcut, List.append_assoc, List.append_assoc]
            _ = ofGap u ++ ofChars m :: fs ++ scan t := by
                rw [← hstep, hscan, List.append_assoc, List.cons_append]
        · refine List.forall_mem_append.mpr ⟨fun f => isScrap_of_mem_ofGap hu, ?_⟩
          exact List.forall_mem_cons.mpr ⟨isScrap_ofChars hm, hscrap⟩

/-! ## The tokens between the runs -/

/-- Only numbers begin with a character of numbers. -/
theorem Kind.Spells.not_isNumeral_head {k : Kind} {m : List Char} (h : k.Spells m)
    (hk : k ≠ .number) : ∀ c ∈ m.head?, ¬ IsNumeral c := by
  rintro c hc (hd | hmark)
  · exact hk ((h.ofLeadChar_head c hc).symm.trans (Kind.ofLeadChar_of_isDigit hd))
  · have hall : ['-', '+', '.', 'e', 'E'].all (fun d =>
        Kind.ofLeadChar d = .number ∨ Kind.ofLeadChar d = .unknown) = true := by decide
    have hlead := List.all_eq_true.mp hall c hmark
    rw [h.ofLeadChar_head c hc, decide_eq_true_eq] at hlead
    rcases hlead with rfl | rfl
    · exact hk rfl
    · exact h

/-- Whatever run stands before the tokens, those of them that are no numbers are read back, and
nothing else but numbers and leftovers. -/
theorem filter_scan_run_concat {w : List Char} {ts : List Token} (hw : Run w) (hr : Readable ts) :
    ((scan (w ++ (concat ts).toList)).filter fun t => ¬ IsScrap t) =
      ts.filter fun t => t.kind ≠ .number := by
  have hdrop : ∀ {fs : List Token}, (∀ f ∈ fs, IsScrap f) →
      (fs.filter fun t => ¬ IsScrap t) = [] := fun hfs =>
    List.filter_eq_nil_iff.mpr fun f hf => by simpa using hfs f hf
  induction ts generalizing w with
  | nil =>
      obtain ⟨fs, hscan, hfs⟩ := exists_scan_run_append (t := []) hw (by simp)
      rw [concat_nil, String.toList_empty, hscan, scan_nil, List.append_nil, hdrop hfs]
      rfl
  | cons t ts ih =>
      have ht := hr.spells t List.mem_cons_self
      rw [concat_cons, String.toList_append]
      by_cases hk : t.kind = .number
      · rw [hk] at ht
        rw [← List.append_assoc, ih (hw.append (IsNumber.run ht)) hr.tail, List.filter_cons_of_neg]
        simpa using hk
      · have hhead : ∀ c ∈ (t.text.toList ++ (concat ts).toList).head?, ¬ IsNumeral c := by
          rw [List.head?_append_of_ne_nil _ ht.ne_nil]
          exact ht.not_isNumeral_head hk
        have hread := (spaced_concat ts).read?_append hr fun _ _ hf => absurd hf.1 hk
        have hsolid : ¬ IsScrap t := by
          rintro (h | ⟨h, -⟩)
          · exact hk h
          · rw [h] at ht
            exact ht
        obtain ⟨fs, hscan, hfs⟩ := exists_scan_run_append hw hhead
        rw [hscan, scan_of_read?_eq_some hread, ofChars_toList_text ht, List.filter_append,
          hdrop hfs, List.nil_append, List.filter_cons_of_pos (by simpa using hsolid),
          List.filter_cons_of_pos (by simpa using hk)]
        exact congrArg _ (ih .nil hr.tail)

end Token

open Token (IsScrap)

/-- The minified layout of a text has no blanks between tokens. But for numbers, the structural
tokens that are read back from it are those of the text. Nothing in it is unknown but points and
exponent letters that are left over, these with or without a plus. -/
theorem tokenize_minify_others {x : String} (hx : x ≠ "") :
    (∀ t ∈ tokenize (minify x), t.kind ≠ .whitespace) ∧
      ((structural (minify x)).filter fun t => t.kind ≠ .number) =
        ((structural x).filter fun t => t.kind ≠ .number) ∧
      ∀ t ∈ tokenize (minify x), t.kind = .unknown →
        t.text ∈ [".", "e", "E", "e+", "E+"] := by
  have hr := Token.readable_structural x
  have hminify : minify x = concat (structural x) := by
    rw [Layout.minify_eq_concat, Layout.tokens_of_ne_empty hx]
  have hothers := Token.filter_scan_run_concat .nil hr
  rw [List.nil_append, ← hminify] at hothers
  have hmem : ∀ t ∈ Token.scan (minify x).toList, ¬ IsScrap t →
      t ∈ structural x ∧ t.kind ≠ .number := by
    intro t ht hs
    have ht' : t ∈ (Token.scan (minify x).toList).filter fun t => ¬ IsScrap t :=
      List.mem_filter.mpr ⟨ht, decide_eq_true hs⟩
    rw [hothers] at ht'
    exact (List.mem_filter.mp ht').imp_right of_decide_eq_true
  rw [Token.tokenize_nothing]
  refine ⟨fun t ht hk => ?_, ?_, fun t ht hk => ?_⟩
  · have hs : ¬ IsScrap t := by
      rintro (h | ⟨h, -⟩) <;> rw [hk] at h <;> exact absurd h (by decide)
    exact hr.solid t (hmem t ht hs).1 hk
  · rw [← hothers, structural, tokenize, List.filter_filter]
    refine List.filter_congr fun t ht => Bool.eq_iff_iff.mpr ?_
    rw [Bool.and_eq_true, decide_eq_true_eq, decide_eq_true_eq]
    constructor
    · rintro ⟨hn, hkeep⟩ (h | ⟨h, -⟩)
      · exact hn h
      · exact (Token.Filter.keeps_structural.mp hkeep).2 h
    · intro hs
      obtain ⟨ht', hn⟩ := hmem t ht hs
      exact ⟨hn, (List.mem_filter.mp ht').2⟩
  · by_cases hs : IsScrap t
    · have hleft := (hs.resolve_left (by rw [hk]; decide)).2
      have htexts : leftovers.map String.ofList = [".", "e", "E", "e+", "E+"] := by decide
      rw [← htexts]
      exact List.mem_map.mpr ⟨_, hleft, String.ofList_toList⟩
    · have hspells := hr.spells t (hmem t ht hs).1
      rw [hk] at hspells
      exact hspells.elim

/-- The first number takes in the digit of the second, whose plus and whose digits are left. -/
theorem tokenize_minify_others_exponents :
    tokenize (minify "1e5 2e+05]") =
        [⟨.number, "1e52"⟩, ⟨.unknown, "e+"⟩, ⟨.number, "0"⟩, ⟨.number, "5"⟩,
          ⟨.bracketClose, "]"⟩] ∧
      ((structural (minify "1e5 2e+05]")).filter fun t => t.kind ≠ .number) =
        [⟨.bracketClose, "]"⟩] := by
  have hfirst : read? "1e5 2e+05]".toList = some ("1e5".toList, " 2e+05]".toList) := by decide
  have hblank : read? " 2e+05]".toList = some ([' '], "2e+05]".toList) := by decide
  have hsecond : read? "2e+05]".toList = some ("2e+05".toList, [']']) := by decide
  have hclose : read? [']'] = some ([']'], []) := by decide
  have htokens : structural "1e5 2e+05]" =
      [⟨.number, "1e5"⟩, ⟨.number, "2e+05"⟩, ⟨.bracketClose, "]"⟩] := by
    rw [structural, tokenize, Token.scan_of_read?_eq_some hfirst,
      Token.scan_of_read?_eq_some hblank, Token.scan_of_read?_eq_some hsecond,
      Token.scan_of_read?_eq_some hclose, Token.scan_nil]
    decide
  have hminify : minify "1e5 2e+05]" = "1e52e+05]" := by
    rw [Layout.minify_eq_concat, Layout.tokens_of_ne_empty (by decide), htokens]
    rfl
  have hothers := (tokenize_minify_others (x := "1e5 2e+05]") (by decide)).2.1
  refine ⟨?_, hothers.trans (by rw [htokens]; decide)⟩
  have hnumber : read? "1e52e+05]".toList = some ("1e52".toList, "e+05]".toList) := by decide
  have hsearch : search "e+05]".toList = ⟨"e+".toList, some (['0'], "5]".toList)⟩ := by decide
  have hlast : read? "5]".toList = some (['5'], [']']) := by decide
  rw [hminify, Token.tokenize_nothing, Token.scan_of_read?_eq_some hnumber, Token.scan_eq, hsearch]
  dsimp only
  rw [Token.scan_of_read?_eq_some hlast, Token.scan_of_read?_eq_some hclose, Token.scan_nil]
  decide

end JsonText
