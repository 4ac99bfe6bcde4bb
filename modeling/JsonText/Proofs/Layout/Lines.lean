-- SUMMARY: The lines of the indented layout begin and end as they should, on any text.
import JsonText.Proofs.Layout.Separators
import JsonText.Proofs.Token.Filler

/-!
# Lines

Unless a string holds a line feed, all line feeds of the indented layout stand
between tokens or behind the last one. So each line but the first begins with
the indentation of a token, and what is before it is the layout of the tokens
before that one. How lines begin and end follows from the separators, also where
brackets do not match and colons or commas are out of place.
-/

namespace JsonText

open Token (Kind Filter Readable kept structural tokenize)
open Lexeme (Blank isBlank read?)

/-! ## The ends of a token -/

/-- A lexeme other than a run of blanks does not begin with a blank. -/
theorem Token.Kind.Spells.not_isBlank_head {k : Kind} {m : List Char} (h : k.Spells m)
    (hk : k ≠ .whitespace) : ∀ c ∈ m.head?, isBlank c = false := by
  intro c hc
  refine Bool.eq_false_iff.mpr fun hb => hk ?_
  rw [← h.ofLeadChar_head c hc, Kind.ofLeadChar_of_isBlank hb]

/-- Nor does it end with one. -/
theorem Token.Kind.Spells.not_isBlank_getLast {k : Kind} {m : List Char} (h : k.Spells m)
    (hk : k ≠ .whitespace) : ∀ c ∈ m.getLast?, isBlank c = false := by
  intro c hc
  by_cases hs : k = .string
  · subst hs
    have hquote : m.getLast? = some '"' := by
      rcases h with ⟨b, rfl, -⟩ | ⟨b, rfl, -⟩ <;> exact List.getLast?_concat
    obtain rfl : '"' = c := Option.some.inj (hquote.symm.trans hc)
    rfl
  · exact Bool.eq_false_iff.mpr fun hb =>
      h.notMem_of_isFiller hk hs (.inl hb) (List.mem_of_getLast? hc)

namespace Layout

/-! ## Gaps -/

/-- No more containers are open than have been opened. -/
theorem depthBehind_le (us : List Token) : depthBehind us ≤ us.countP (·.kind.isOpen) := by
  induction us using List.reverseRecOn with
  | nil => exact Nat.le_refl 0
  | append_singleton us a ih =>
      rw [depthBehind_concat, List.countP_append, List.countP_singleton, depthAfter, depthOf]
      split
      · omega
      · split <;> omega

theorem exists_indentationOf_eq (us : List Token) (b : Token) :
    ∃ depth ≤ us.countP (·.kind.isOpen),
      (indentationOf us b).toList = List.replicate (4 * depth) ' ' := by
  refine ⟨if b.kind.isClose then depthBehind us - 1 else depthBehind us, ?_, toList_indent _⟩
  have := depthBehind_le us
  split <;> omega

/-- Between two tokens there are only spaces, or a line feed and the indentation of the next line.
That line is no deeper than containers have been opened before it. -/
theorem gap_eq (us : List Token) (b : Token) :
    (∃ n, (gap us b).toList = List.replicate n ' ') ∨
      ∃ depth ≤ us.countP (·.kind.isOpen),
        (gap us b).toList = '\n' :: List.replicate (4 * depth) ' ' := by
  obtain ⟨depth, hle, hline⟩ := exists_indentationOf_eq us b
  have hspace : (" " ++ indentationOf us b).toList = List.replicate (4 * depth + 1) ' ' := by
    rw [String.toList_append, hline, List.replicate_succ]
    rfl
  have hfeed : ("\n" ++ indentationOf us b).toList = '\n' :: List.replicate (4 * depth) ' ' := by
    rw [String.toList_append, hline]
    rfl
  have hbare : ∃ depth ≤ us.countP (·.kind.isOpen),
      "\n".toList = '\n' :: List.replicate (4 * depth) ' ' := ⟨0, Nat.zero_le _, rfl⟩
  rw [gap]
  cases us.getLast? with
  | none => exact .inl ⟨0, rfl⟩
  | some a =>
      rw [Option.elim_some, separator]
      repeat' split
      · exact .inl ⟨_, hspace⟩
      · exact .inl ⟨1, rfl⟩
      · exact .inl ⟨0, rfl⟩
      · exact .inr hbare
      · exact .inl ⟨0, rfl⟩
      · exact .inr hbare
      · exact .inl ⟨0, rfl⟩
      · exact .inr ⟨depth, hle, hfeed⟩

/-! ## What ends a layout -/

theorem trailer_eq_space_iff (k : Kind) : (trailer k).toList = [' '] ↔ k = .colon := by
  cases k <;> decide

theorem trailer_eq_feed_iff (k : Kind) :
    (trailer k).toList = ['\n'] ↔ k.isScalar = true ∨ k = .comma := by
  cases k <;> decide

theorem trailer_ne_tab (k : Kind) : (trailer k).toList ≠ ['\t'] := by
  cases k <;> decide

theorem trailer_eq (k : Kind) :
    (trailer k).toList = [] ∨ (trailer k).toList = [' '] ∨ (trailer k).toList = ['\n'] := by
  cases k <;> decide

theorem ending_eq (ts : List Token) :
    (ending ts).toList = [] ∨ (ending ts).toList = [' '] ∨ (ending ts).toList = ['\n'] := by
  rw [ending]
  cases ts.getLast? with
  | none => exact .inl rfl
  | some a => exact trailer_eq a.kind

theorem ending_eq_feed_or_notMem (ts : List Token) :
    (ending ts).toList = ['\n'] ∨ '\n' ∉ (ending ts).toList := by
  rcases ending_eq ts with h | h | h <;> simp [h]

theorem blank_ending (ts : List Token) : Blank (ending ts).toList := by
  rcases ending_eq ts with h | h | h <;> rw [h] <;> decide

/-! ## Line breaks -/

theorem toList_joinBehind_append (us vs ws : List Token) :
    (joinBehind us (vs ++ ws)).toList =
      (joinBehind us vs).toList ++ (joinBehind (us ++ vs) ws).toList := by
  induction vs generalizing us with
  | nil => simp [joinBehind]
  | cons b vs ih =>
      rw [List.cons_append, joinBehind, joinBehind]
      simp only [String.toList_append, ih, List.append_assoc, List.singleton_append]

theorem feed_notMem_replicate (n : Nat) : '\n' ∉ List.replicate n ' ' := fun h =>
  absurd (List.eq_of_mem_replicate h) (by decide)

theorem length_takeWhile_spaces (n : Nat) {r : List Char} (h : ' ' ∉ r.head?) :
    ((List.replicate n ' ' ++ r).takeWhile (· == ' ')).length = n := by
  have hspaces : ∀ c ∈ List.replicate n ' ', (c == ' ') = true := fun c hc =>
    beq_iff_eq.mpr (List.eq_of_mem_replicate hc)
  have hrest : ∀ c ∈ r.head?, (c == ' ') = false := fun c hc =>
    beq_eq_false_iff_ne.mpr fun he => h (he ▸ hc)
  rw [(Lexeme.run_append hspaces hrest).1, List.length_replicate]

/-- A line feed from a gap on begins the gap, or else it stands behind it. -/
theorem eq_of_gap_append {us : List Token} {b : Token} {l p q : List Char}
    (h : (gap us b).toList ++ l = p ++ '\n' :: q) :
    (p = [] ∧ ∃ depth ≤ us.countP (·.kind.isOpen), q = List.replicate (4 * depth) ' ' ++ l) ∨
      ∃ t, p = (gap us b).toList ++ t ∧ l = t ++ '\n' :: q := by
  rcases gap_eq us b with ⟨n, hgap⟩ | ⟨depth, hle, hgap⟩
  · rw [hgap] at h ⊢
    exact .inr (Lexeme.exists_eq_append_of_notMem h (feed_notMem_replicate n))
  · rw [hgap, List.cons_append] at h
    cases p with
    | nil => exact .inl ⟨rfl, depth, hle, (List.cons.inj h).2.symm⟩
    | cons c p =>
        obtain ⟨hc, htail⟩ := List.cons.inj h
        obtain ⟨t, rfl, hl⟩ := Lexeme.exists_eq_append_of_notMem htail (feed_notMem_replicate _)
        exact .inr ⟨t, by rw [hgap, ← hc]; rfl, hl⟩

/-- A line feed in the layout of tokens behind others stands before one of them, or behind the
last. What precedes it is the layout of the tokens before it, and the line that follows it is no
deeper than containers have been opened by these. -/
theorem exists_line_of_feed {us ts : List Token} {e p q : List Char} (hr : Readable ts)
    (hl : ∀ t ∈ ts, '\n' ∉ t.text.toList) (he : e = ['\n'] ∨ '\n' ∉ e)
    (h : (joinBehind us ts).toList ++ e = p ++ '\n' :: q) :
    ∃ vs, vs <+: ts ∧ p = (joinBehind us vs).toList ∧
      ∃ depth ≤ (us ++ vs).countP (·.kind.isOpen), (q.takeWhile (· == ' ')).length = 4 * depth := by
  induction ts generalizing us p with
  | nil =>
      obtain rfl : e = p ++ '\n' :: q := h
      rcases he with he | he
      · cases p with
        | nil =>
            obtain rfl : q = [] := (List.cons.inj he).2
            exact ⟨[], List.nil_prefix, rfl, 0, Nat.zero_le _, rfl⟩
        | cons c p => simp at he
      · exact absurd (by simp) he
  | cons b ts ih =>
      obtain ⟨hb, hts⟩ := List.forall_mem_cons.mp hl
      rw [joinBehind, String.toList_append, String.toList_append, List.append_assoc,
        List.append_assoc] at h
      rcases eq_of_gap_append h with ⟨rfl, depth, hle, rfl⟩ | ⟨p, rfl, hbehind⟩
      · have hspells := hr.spells b List.mem_cons_self
        have hsolid := hspells.not_isBlank_head (hr.solid b List.mem_cons_self)
        rw [← List.head?_append_of_ne_nil _ hspells.ne_nil] at hsolid
        exact ⟨[], List.nil_prefix, rfl, depth, by rwa [List.append_nil],
          length_takeWhile_spaces _ fun hc => absurd (hsolid ' ' hc) (by decide)⟩
      · obtain ⟨p, rfl, hmore⟩ := Lexeme.exists_eq_append_of_notMem hbehind hb
        obtain ⟨vs, hvs, rfl, depth, hle, hlead⟩ := ih hr.tail hts hmore
        rw [List.append_assoc us [b] vs] at hle
        refine ⟨b :: vs, List.cons_prefix_cons.mpr ⟨rfl, hvs⟩, ?_, depth, hle, hlead⟩
        rw [joinBehind, String.toList_append, String.toList_append]

/-! ## Tidy lines -/

/-- The lines of a layout `s` of the tokens `ts`. -/
structure IsTidy (ts : List Token) (s : List Char) : Prop where
  /-- The layout does not begin with a blank. -/
  head : ∀ c ∈ s.head?, isBlank c = false
  /-- No line is empty. -/
  no_empty_line : ¬ ['\n', '\n'] <:+: s
  /-- No blank stands before a line feed. -/
  line_end : ∀ p q, s = p ++ '\n' :: q → ∀ c ∈ p.getLast?, isBlank c = false
  /-- The last line ends in a space if the last token is a colon, and only then. -/
  space_end : s.getLast? = some ' ' ↔ ∃ t ∈ ts.getLast?, t.kind = .colon
  /-- The last line does not end in a tab. -/
  tab_end : s.getLast? ≠ some '\t'
  /-- A line feed ends the last line if the last token is a scalar or a comma, and only then. -/
  feed_end : s.getLast? = some '\n' ↔
    ∃ t ∈ ts.getLast?, t.kind.isScalar = true ∨ t.kind = .comma
  /-- Each line is indented by four spaces for some of the containers opened before it. -/
  lead : ∀ p q, s = p ++ q → p = [] ∨ p.getLast? = some '\n' →
    ∃ depth ≤ (structural (String.ofList p)).countP (·.kind.isOpen),
      (q.takeWhile (· == ' ')).length = 4 * depth

section

variable {ts : List Token}

theorem not_isBlank_getLast_joinBehind (hr : Readable ts) (us : List Token) :
    ∀ c ∈ (joinBehind us ts).toList.getLast?, isBlank c = false := by
  cases ts using List.reverseRecOn with
  | nil => exact fun c hc => absurd hc (by simp [joinBehind])
  | append_singleton vs a =>
      have hspells := hr.spells a (by simp)
      have hlast : (joinBehind us (vs ++ [a])).toList.getLast? = a.text.toList.getLast? := by
        rw [toList_joinBehind_append, joinBehind, joinBehind, String.append_empty,
          String.toList_append, ← List.append_assoc,
          List.getLast?_append_of_ne_nil _ hspells.ne_nil]
      rw [hlast]
      exact hspells.not_isBlank_getLast (hr.solid a (by simp))

theorem not_isBlank_head_joined (hr : Readable ts) :
    ∀ c ∈ (joined ts).toList.head?, isBlank c = false := by
  cases ts with
  | nil => exact fun c hc => absurd hc (by simp [joined, joinBehind, ending])
  | cons a ts =>
      have hspells := hr.spells a List.mem_cons_self
      have hgap : gap [] a = "" := rfl
      rw [joined, joinBehind, hgap, String.empty_append, String.append_assoc,
        String.toList_append, List.head?_append_of_ne_nil _ hspells.ne_nil]
      exact hspells.not_isBlank_head (hr.solid a List.mem_cons_self)

/-- The last line ends in a blank only where one stands behind the last token. -/
theorem getLast?_joined_iff (hr : Readable ts) {c : Char} (hc : isBlank c = true) :
    (joined ts).toList.getLast? = some c ↔
      ∃ t ∈ ts.getLast?, (trailer t.kind).toList = [c] := by
  have hbody : (joinBehind [] ts).toList.getLast? ≠ some c := fun h =>
    absurd hc (Bool.eq_false_iff.mp (not_isBlank_getLast_joinBehind hr [] c h))
  have hending : (ending ts).toList = [c] ↔ ∃ t ∈ ts.getLast?, (trailer t.kind).toList = [c] := by
    rw [ending]
    cases ts.getLast? <;> simp
  rw [← hending, joined, String.toList_append]
  rcases ending_eq ts with h | h | h <;> rw [h]
  · simpa using hbody
  · simp
  · simp

/-- The tokens with structure in a part of a layout are those that were laid out. -/
theorem kept_joinBehind (hr : Readable ts)
    (hk : ∀ t ∈ ts, Filter.structural.keeps t.kind = true) :
    kept (joinBehind [] ts).toList = ts := by
  have hread := (spaced_write none 0 ts).visible_eq hr
  rw [write_eq_joined hk] at hread
  calc kept (joinBehind [] ts).toList
      = kept (joined ts).toList := by
        rw [joined, String.toList_append, Token.kept_append_blank (blank_ending ts)]
    _ = ts := by
        rw [Token.kept_eq_filter_visible, hread, List.filter_eq_self.mpr hk]

/-- No line is deeper than containers have been opened before it. -/
theorem exists_lead (hr : Readable ts) (hk : ∀ t ∈ ts, Filter.structural.keeps t.kind = true)
    (hl : ∀ t ∈ ts, '\n' ∉ t.text.toList) {p q : List Char} (h : (joined ts).toList = p ++ q)
    (hp : p = [] ∨ p.getLast? = some '\n') :
    ∃ depth ≤ (structural (String.ofList p)).countP (·.kind.isOpen),
      (q.takeWhile (· == ' ')).length = 4 * depth := by
  rcases hp with rfl | hp
  · have hhead : ' ' ∉ q.head? := fun hc =>
      absurd (not_isBlank_head_joined hr ' ' (h ▸ hc)) (by decide)
    exact ⟨0, Nat.zero_le _, length_takeWhile_spaces 0 hhead⟩
  · obtain ⟨p, rfl⟩ := List.getLast?_eq_some_iff.mp hp
    rw [joined, String.toList_append, List.append_assoc] at h
    obtain ⟨vs, hvs, rfl, depth, hle, hlead⟩ :=
      exists_line_of_feed hr hl (ending_eq_feed_or_notMem ts) h
    have hkept := kept_joinBehind (hr.sublist hvs.sublist) fun t ht => hk t (hvs.subset ht)
    have hseen : structural (String.ofList ((joinBehind [] vs).toList ++ ['\n'])) = vs := by
      rw [Token.structural_eq_kept, String.toList_ofList, Token.kept_append_blank (by decide),
        hkept]
    exact ⟨depth, by rwa [hseen], hlead⟩

/-- The lines of a layout are tidy unless a token breaks them. -/
theorem isTidy_joined (hr : Readable ts)
    (hk : ∀ t ∈ ts, Filter.structural.keeps t.kind = true)
    (hl : ∀ t ∈ ts, '\n' ∉ t.text.toList) : IsTidy ts (joined ts).toList := by
  have hend : ∀ p q, (joined ts).toList = p ++ '\n' :: q →
      ∀ c ∈ p.getLast?, isBlank c = false := by
    intro p q h
    rw [joined, String.toList_append] at h
    obtain ⟨vs, hvs, rfl, -⟩ := exists_line_of_feed hr hl (ending_eq_feed_or_notMem ts) h
    exact not_isBlank_getLast_joinBehind (hr.sublist hvs.sublist) []
  refine ⟨not_isBlank_head_joined hr, ?no_empty_line, hend, ?space_end, ?tab_end, ?feed_end,
    fun p q => exists_lead hr hk hl⟩
  case no_empty_line =>
    rintro ⟨p, q, h⟩
    have hfeed := hend (p ++ ['\n']) q (by rw [← h]; simp) '\n' List.getLast?_concat
    exact absurd hfeed (by decide)
  case space_end =>
    simp only [getLast?_joined_iff hr (c := ' ') rfl, trailer_eq_space_iff]
  case tab_end =>
    rw [ne_eq, getLast?_joined_iff hr (c := '\t') rfl]
    rintro ⟨t, -, h⟩
    exact trailer_ne_tab t.kind h
  case feed_end =>
    simp only [getLast?_joined_iff hr (c := '\n') rfl, trailer_eq_feed_iff]

end

/-- Only strings can hold a line feed. -/
theorem feed_notMem_tokens {x : String}
    (h : ∀ t ∈ tokenize x, t.kind = .string → '\n' ∉ t.text.toList) :
    ∀ t ∈ tokens x, '\n' ∉ t.text.toList := by
  intro t ht
  by_cases hs : t.kind = .string
  · have hx : x ≠ "" := by
      rintro rfl
      rw [tokens_empty, List.mem_singleton] at ht
      rw [ht] at hs
      exact absurd hs (by decide)
    rw [tokens_of_ne_empty hx] at ht
    refine h t ?_ hs
    rw [Token.tokenize_nothing]
    exact (List.mem_filter.mp ht).1
  · have hr := readable_tokens x
    exact (hr.spells t ht).notMem_of_isFiller (hr.solid t ht) hs (.inl rfl)

end Layout

/-- The indented layout of a text has tidy lines, be the text well formed or not, unless a string
holds a line feed. -/
theorem isTidy_format {x : String}
    (h : ∀ t ∈ tokenize x, t.kind = .string → '\n' ∉ t.text.toList) :
    Layout.IsTidy (Layout.tokens x) (format x).toList := by
  rw [Layout.format_eq_joined_tokens]
  exact Layout.isTidy_joined (Layout.readable_tokens x) (fun _ => Layout.keeps_of_mem_tokens)
    (Layout.feed_notMem_tokens h)

/-- An array that is not closed, with a colon behind its first item. -/
theorem isTidy_format_colon :
    tokenize "[\"a b\":" = [⟨.bracketOpen, "["⟩, ⟨.string, "\"a b\""⟩, ⟨.colon, ":"⟩] ∧
      format "[\"a b\":" = "[\n    \"a b\": " ∧
      Layout.IsTidy (Layout.tokens "[\"a b\":") (format "[\"a b\":").toList := by
  have hopen : read? "[\"a b\":".toList = some (['['], "\"a b\":".toList) := by decide
  have hstring : read? "\"a b\":".toList = some ("\"a b\"".toList, [':']) := by decide
  have hcolon : read? [':'] = some ([':'], []) := by decide
  have htokens : tokenize "[\"a b\":" =
      [⟨.bracketOpen, "["⟩, ⟨.string, "\"a b\""⟩, ⟨.colon, ":"⟩] := by
    rw [Token.tokenize_nothing, Token.scan_of_read?_eq_some hopen,
      Token.scan_of_read?_eq_some hstring, Token.scan_of_read?_eq_some hcolon, Token.scan_nil]
    decide
  refine ⟨htokens, ?_, isTidy_format ?_⟩
  · rw [Layout.format_eq_joined_tokens, Layout.tokens_of_ne_empty (by decide), structural,
      tokenize, ← Token.tokenize_nothing, htokens]
    decide
  · rw [htokens]
    decide

end JsonText
