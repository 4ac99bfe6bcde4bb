-- SUMMARY: Every token but a string is the longest text of its kind where it stands.
import JsonText.Proofs.Lexeme.Preferred
import JsonText.Proofs.Token.Boundary
import JsonText.Proofs.Token.Stream

/-!
# Longest tokens

The pattern for lexemes prefers a match by the order of its parts, not by its
length. For blanks and numbers this comes to the same, since each part goes on as
far as it can and no part begins as the one before it goes on; words and
punctuation leave no choice. So these tokens are the longest texts of their
kinds where they stand, and a number is found wherever one begins.
-/

namespace JsonText

open Token (Kind)

/-! ## The longest member of a language -/

/-- Of the texts of a language with which `s` begins, `m` is the longest. -/
structure IsLongest (language : List Char → Prop) (s m : List Char) : Prop where
  mem : language m
  begins : m <+: s
  length_le : ∀ n, language n → n <+: s → n.length ≤ m.length

namespace Lexeme

variable {s m r : List Char}

/-- No run of blanks is longer than one behind which no blank comes. -/
theorem length_le_of_stops {n : List Char} (hn : Blank n) (hp : n <+: m ++ r)
    (hr : Kind.whitespace.Stops m r) : n.length ≤ m.length := by
  rcases Nat.le_total n.length m.length with hle | hle
  · exact hle
  · obtain ⟨x, rfl⟩ := List.prefix_of_prefix_length_le (List.prefix_append m r) hp hle
    cases x with
    | nil => simp
    | cons c x =>
        -- A longer run would go on with the character behind `m`.
        obtain ⟨y, rfl⟩ := (List.prefix_append_right_inj m).mp hp
        have hblank : isBlank c = true := hn c (by simp)
        have hstop : isBlank c = false := hr c rfl
        rw [hblank] at hstop
        exact absurd hstop (by decide)

/-- What is read is the longest of its kind, unless it is a string. -/
theorem isLongest_of_read? (h : read? s = some (m, r)) (hk : Kind.ofChars m ≠ .string) :
    IsLongest (Kind.ofChars m).Language s m := by
  obtain ⟨hspells, hstops⟩ := spells_ofChars_of_read? h
  have hcut : m ++ r = s := (cuts_of_read? h).1
  refine ⟨hspells.language, ⟨r, hcut⟩, fun n hn hp => ?_⟩
  have hn : (Kind.ofChars m).Spells n := hn.spells hk
  subst hcut
  generalize Kind.ofChars m = k at *
  cases k with
  | unknown => exact absurd hspells id
  | whitespace => exact length_le_of_stops hn.2 hp hstops
  | string => exact absurd rfl hk
  | number =>
      rw [IsNumber.read?_append hspells] at h
      exact ((number?_eq_some_iff.mp h).2.2 n hn hp).length_le
  | _ => exact (congrArg List.length (hn.trans hspells.symm)).le

/-- Where a number begins, a number is read. -/
theorem exists_read?_of_isNumber {n : List Char} (hn : IsNumber n) (hp : n <+: s) :
    ∃ m r, read? s = some (m, r) ∧ IsNumber m := by
  obtain ⟨t, rfl⟩ := hp
  obtain ⟨m, r, hread, -⟩ := hn.exists_prefix (List.prefix_append n t)
  exact ⟨m, r, (hn.read?_append t).trans hread, (isNumber_of_number? hread).1⟩

end Lexeme

namespace Token

open Lexeme

/-! ## Where matches are attempted -/

/-- While `s` is scanned, a match is attempted where `q` is left: at the beginning, one
character further on wherever there is no match, and behind every match. -/
inductive Attempts : List Char → List Char → Prop where
  | here (s : List Char) : Attempts s s
  | pass {c : Char} {s q : List Char} (hs : Pattern.lexeme.preferred? (c :: s) = none)
      (hq : Attempts s q) : Attempts (c :: s) q
  | behind {s m r q : List Char} (hs : Pattern.lexeme.preferred? s = some (m, r))
      (hq : Attempts r q) : Attempts s q

variable {s q : List Char}

theorem attempts_of_free {g : List Char} (hg : Free g s) (hq : Attempts s q) :
    Attempts (g ++ s) q := by
  induction g with
  | nil => exact hq
  | cons c g ih =>
      refine .pass ?_ (ih hg.2)
      rw [Pattern.preferred?_lexeme]
      exact hg.1

/-- A match is attempted at every boundary. -/
theorem CutBefore.attempts {p : List Char} {ts : List Token} (h : CutBefore q p ts) :
    Attempts (p ++ q) q := by
  induction h with
  | gap hg => exact attempts_of_free hg (.here q)
  | @lexeme g m r ts hg hm _ ih =>
      rw [List.append_assoc, List.append_assoc]
      refine attempts_of_free hg (.behind (m := m) ?_ ih)
      rw [Pattern.preferred?_lexeme]
      exact hm

/-- A character at which nothing is read belongs to the gap in front. -/
theorem CutBefore.pass {c : Char} {p : List Char} {ts : List Token} (h : CutBefore q p ts)
    (hc : read? (c :: (p ++ q)) = none) : ∃ us, CutBefore q (c :: p) us := by
  cases h with
  | gap hg => exact ⟨_, .gap ⟨hc, hg⟩⟩
  | @lexeme g m r ts hg hm hr =>
      rw [List.append_assoc, List.append_assoc] at hc
      exact ⟨_, .lexeme (g := c :: g) ⟨hc, hg⟩ hm hr⟩

/-- The text before an attempt is cut up with what is left in view. -/
theorem Attempts.exists_cutBefore (h : Attempts s q) :
    ∃ p ts, s = p ++ q ∧ CutBefore q p ts := by
  induction h with
  | here s => exact ⟨[], _, rfl, .gap (g := []) trivial⟩
  | @pass c s q hs _ ih =>
      -- The character passed over prolongs the first gap, or opens one.
      obtain ⟨p, ts, rfl, hp⟩ := ih
      rw [Pattern.preferred?_lexeme] at hs
      obtain ⟨us, hus⟩ := hp.pass hs
      exact ⟨c :: p, us, rfl, hus⟩
  | @behind s m r q hs _ ih =>
      obtain ⟨p, ts, rfl, hp⟩ := ih
      rw [Pattern.preferred?_lexeme] at hs
      obtain rfl : m ++ (p ++ q) = s := (cuts_of_read? hs).1
      exact ⟨m ++ p, _, (List.append_assoc m p q).symm, .lexeme (g := []) trivial hs hp⟩

/-- A lexeme that is read at a boundary is the next token. -/
theorem CutBefore.append {p m r : List Char} {ts us : List Token} (h : CutBefore (m ++ r) p ts)
    (hm : read? (m ++ r) = some (m, r)) (hr : Cut r us) :
    Cut (p ++ (m ++ r)) (ts ++ ofChars m :: us) := by
  induction h with
  | gap hg => exact .lexeme hg hm hr
  | @lexeme g n p ts hg hn _ ih =>
      rw [List.append_assoc, List.append_assoc, List.append_assoc, List.cons_append]
      exact .lexeme hg hn ih

/-- What is read where a match is attempted becomes a token. -/
theorem Attempts.exists_scan_eq {m r : List Char} (h : Attempts s (m ++ r))
    (hm : read? (m ++ r) = some (m, r)) : ∃ ts, scan s = ts ++ ofChars m :: scan r := by
  obtain ⟨p, ts, rfl, hp⟩ := h.exists_cutBefore
  exact ⟨ts, (hp.append hm (cut_scan r)).eq_scan.symm⟩

/-! ## Longest tokens -/

/-- Every lexeme in the stream is the match that the pattern prefers where it stands, and unless
it is a string it is the longest text of its kind there. Wherever a match is attempted and a
number begins, the next token is a number. A fraction or an exponent that breaks off takes
nothing from the number before it and adds nothing to it. -/
theorem tokenize_longest (text : String) :
    (∀ ts t us, tokenize text = ts ++ t :: us → t.kind ≠ .unknown →
        Attempts text.toList (concat (t :: us)).toList ∧
          Pattern.lexeme.preferred? (concat (t :: us)).toList =
            some (t.text.toList, (concat us).toList) ∧
          (t.kind ≠ .string →
            IsLongest t.kind.Language (concat (t :: us)).toList t.text.toList)) ∧
      (∀ s n, Attempts text.toList s → IsNumber n → n <+: s →
        ∃ ts t us, tokenize text = ts ++ t :: us ∧ t.kind = .number ∧
          (concat (t :: us)).toList = s) ∧
      ∀ m r, Attempts text.toList (m ++ r) → IsNumber m → BreaksOff r →
        ∃ ts us, tokenize text = ts ++ ⟨.number, String.ofList m⟩ :: us ∧
          (concat us).toList = r := by
  rw [tokenize_nothing]
  refine ⟨fun ts t us hts hk => ?_, fun s n hs hn hp => ?_, fun m r hs hm hr => ?_⟩
  · have hcut := cut_scan text.toList
    rw [hts] at hcut
    obtain ⟨p, q, htext, hp, hq⟩ := hcut.split
    have hleft : (concat (t :: us)).toList = q := by rw [toList_concat, hq.flatMap_eq]
    have hread : read? q = some (t.text.toList, (concat us).toList) := by
      rw [toList_concat, hq.read?_eq hk]
    have hkind : Kind.ofChars t.text.toList = t.kind :=
      (hq.spells t List.mem_cons_self hk).2.ofChars_eq
    rw [htext, hleft, Pattern.preferred?_lexeme]
    refine ⟨hp.attempts, hread, fun hstring => ?_⟩
    have hlongest := isLongest_of_read? hread (hkind ▸ hstring)
    rwa [hkind] at hlongest
  · obtain ⟨m, r, hread, hm⟩ := exists_read?_of_isNumber hn hp
    obtain rfl : m ++ r = s := (cuts_of_read? hread).1
    obtain ⟨ts, hts⟩ := hs.exists_scan_eq hread
    refine ⟨ts, ofChars m, scan r, hts, ?_, ?_⟩
    · exact Kind.Spells.ofChars_eq (k := .number) hm
    · rw [concat_cons, String.toList_append, toList_text_ofChars, concat_scan, String.toList_ofList]
  · have hread : read? (m ++ r) = some (m, r) := by
      rw [hm.read?_append, number?_append_of_breaksOff hm hr]
    obtain ⟨ts, hts⟩ := hs.exists_scan_eq hread
    refine ⟨ts, scan r, ?_, ?_⟩
    · rw [hts, ofChars, Kind.Spells.ofChars_eq (k := .number) hm]
    · rw [concat_scan, String.toList_ofList]

/-- A fraction that breaks off before another number, and an exponent that breaks off at the end
of the text. -/
theorem tokenize_longest_broken_off :
    tokenize "1.e5 2e+" =
        [⟨.number, "1"⟩, ⟨.unknown, ".e"⟩, ⟨.number, "5"⟩, ⟨.whitespace, " "⟩, ⟨.number, "2"⟩,
          ⟨.unknown, "e+"⟩] ∧
      IsLongest Kind.number.Language "2e+".toList "2".toList ∧
      (∃ ts t us, tokenize "1.e5 2e+" = ts ++ t :: us ∧ t.kind = .number ∧
        (concat (t :: us)).toList = "5 2e+".toList) ∧
      ∃ ts us, tokenize "1.e5 2e+" = ts ++ ⟨.number, "2"⟩ :: us ∧
        (concat us).toList = "e+".toList := by
  have hone : read? "1.e5 2e+".toList = some (['1'], ".e5 2e+".toList) := by decide
  have hpoint : read? ".e5 2e+".toList = none := by decide
  have hletter : read? "e5 2e+".toList = none := by decide
  have hsearch : search ".e5 2e+".toList = ⟨".e".toList, some (['5'], " 2e+".toList)⟩ := by decide
  have hblank : read? " 2e+".toList = some ([' '], "2e+".toList) := by decide
  have htwo : read? "2e+".toList = some (['2'], "e+".toList) := by decide
  have hend : search "e+".toList = ⟨"e+".toList, none⟩ := by decide
  have htokens : tokenize "1.e5 2e+" =
      [⟨.number, "1"⟩, ⟨.unknown, ".e"⟩, ⟨.number, "5"⟩, ⟨.whitespace, " "⟩, ⟨.number, "2"⟩,
        ⟨.unknown, "e+"⟩] := by
    rw [tokenize_nothing, scan_of_read?_eq_some hone, scan_eq, hsearch]
    dsimp only
    rw [scan_of_read?_eq_some hblank, scan_of_read?_eq_some htwo, scan_eq, hend]
    decide
  obtain ⟨hattempt, -, hlongest⟩ := (tokenize_longest "1.e5 2e+").1
    [⟨.number, "1"⟩, ⟨.unknown, ".e"⟩, ⟨.number, "5"⟩, ⟨.whitespace, " "⟩] ⟨.number, "2"⟩
    [⟨.unknown, "e+"⟩] htokens (by decide)
  have hfive : Attempts "1.e5 2e+".toList "5 2e+".toList := by
    simp only [← Pattern.preferred?_lexeme] at hone hpoint hletter
    exact .behind hone (.pass hpoint (.pass hletter (.here _)))
  refine ⟨htokens, hlongest (by decide), ?_, ?_⟩
  · exact (tokenize_longest "1.e5 2e+").2.1 _ ['5'] hfive (isNumber_digit rfl)
      ⟨" 2e+".toList, rfl⟩
  · exact (tokenize_longest "1.e5 2e+").2.2 ['2'] ['e', '+'] hattempt (isNumber_digit rfl)
      (.sign (.inl rfl) (.inl rfl) fun _ hc => absurd hc (Option.not_mem_none _))

end Token

end JsonText
