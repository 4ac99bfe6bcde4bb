-- SUMMARY: Regular patterns with preferences, and the matches of a pattern in order of preference.
import Mathlib.Data.List.Basic

/-!
# Patterns

A pattern may match the head of a text in several ways, and it prefers one of
them. Of two alternatives the first one comes before the second, and a repetition
goes on before it stops. `readings` lists all the ways in that order, as a
matcher finds them that takes back its last choice whenever it cannot go on. The
match is the first of them, whether or not another one is longer.
-/

namespace JsonText

/-- A regular pattern over characters. -/
inductive Pattern where
  /-- One character of a class. -/
  | one (p : Char → Bool)
  /-- The first pattern, and the second one behind it. -/
  | seq (a b : Pattern)
  /-- One of two patterns, and rather the first. -/
  | orElse (a b : Pattern)
  /-- The pattern any number of times, and rather once more. -/
  | many (a : Pattern)

namespace Pattern

/-- The character itself. -/
def char (c : Char) : Pattern :=
  one (· == c)

/-- A reading with more text before it. -/
def prepend (m : List Char) (p : List Char × List Char) : List Char × List Char :=
  (m ++ p.1, p.2)

/-- The readings of a repetition, where `step` gives those of one round. A round that takes
nothing is no round. -/
def rounds (step : List Char → List (List Char × List Char)) (s : List Char) :
    List (List Char × List Char) :=
  ((step s).flatMap fun p =>
    if _h : p.2.length < s.length then (rounds step p.2).map (prepend p.1) else []) ++ [([], s)]
termination_by s.length

/-- The matches at the head of a text, each with what follows it, in order of preference. -/
def readings : Pattern → List Char → List (List Char × List Char)
  | one _, [] => []
  | one p, c :: s => if p c then [([c], s)] else []
  | seq a b, s => (a.readings s).flatMap fun p => (b.readings p.2).map (prepend p.1)
  | orElse a b, s => a.readings s ++ b.readings s
  | many a, s => rounds a.readings s

/-- The match at the head of a text, and what follows it. -/
def preferred? (a : Pattern) (s : List Char) : Option (List Char × List Char) :=
  (a.readings s).head?

/-! ## Preferences -/

theorem prepend_prepend (m n : List Char) (p : List Char × List Char) :
    prepend m (prepend n p) = prepend (m ++ n) p := by
  rw [prepend, prepend, prepend, List.append_assoc]

theorem preferred?_orElse (a b : Pattern) (s : List Char) :
    (orElse a b).preferred? s = (a.preferred? s).or (b.preferred? s) :=
  List.head?_append

theorem readings_one_seq (p : Char → Bool) (b : Pattern) (c : Char) (s : List Char) :
    (seq (one p) b).readings (c :: s) =
      if p c then (b.readings s).map (prepend [c]) else [] := by
  rw [readings, readings]
  split
  · exact List.flatMap_singleton _ _
  · rfl

/-! ## Repetitions -/

/-- Every match takes at least one character. -/
def Takes (a : Pattern) : Prop :=
  ∀ s, ∀ p ∈ a.readings s, p.2.length < s.length

theorem takes_one (p : Char → Bool) : (one p).Takes := by
  intro s q hq
  cases s with
  | nil => simp [readings] at hq
  | cons c s =>
      rw [readings, List.mem_ite_nil_right, List.mem_singleton] at hq
      rw [hq.2]
      exact Nat.lt_succ_self _

theorem Takes.seq {a b : Pattern} (ha : a.Takes) (hb : b.Takes) : (seq a b).Takes := by
  intro s p hp
  obtain ⟨q, hq, hp⟩ := List.mem_flatMap.mp hp
  obtain ⟨r, hr, rfl⟩ := List.mem_map.mp hp
  exact Nat.lt_trans (hb q.2 r hr) (ha s q hq)

theorem Takes.orElse {a b : Pattern} (ha : a.Takes) (hb : b.Takes) : (orElse a b).Takes := by
  intro s p hp
  rcases List.mem_append.mp hp with hp | hp
  · exact ha s p hp
  · exact hb s p hp

/-- A repetition is one round and the repetition behind it, or else nothing. -/
theorem readings_many {a : Pattern} (ha : a.Takes) (s : List Char) :
    (many a).readings s = (seq a (many a)).readings s ++ [([], s)] := by
  rw [readings, readings, rounds]
  congr 1
  refine List.flatMap_congr fun p hp => ?_
  rw [dif_pos (ha s p hp), readings]

theorem preferred?_many {a : Pattern} (ha : a.Takes) (s : List Char) :
    (many a).preferred? s = ((seq a (many a)).preferred? s).or (some ([], s)) := by
  rw [preferred?, readings_many ha, List.head?_append]
  rfl

theorem readings_many_seq {a : Pattern} (ha : a.Takes) (b : Pattern) (s : List Char) :
    (seq (many a) b).readings s = (orElse (seq a (seq (many a) b)) b).readings s := by
  have hassoc : ∀ p : List Char × List Char,
      (((many a).readings p.2).map (prepend p.1)).flatMap
          (fun q => (b.readings q.2).map (prepend q.1)) =
        ((seq (many a) b).readings p.2).map (prepend p.1) := by
    intro p
    rw [readings, List.map_flatMap, List.flatMap_map]
    refine List.flatMap_congr fun q _ => ?_
    rw [List.map_map]
    exact List.map_congr_left fun r _ => (prepend_prepend p.1 q.1 r).symm
  have hstop : (b.readings s).map (prepend []) = b.readings s := List.map_id _
  rw [readings, readings_many ha, readings, List.flatMap_append, List.flatMap_assoc,
    List.flatMap_singleton, hstop, readings, readings]
  simp only [hassoc]

/-! ## Parts that always match -/

/-- There is a match at the head of every text. -/
def Total (a : Pattern) : Prop :=
  ∀ s, ∃ p, a.preferred? s = some p

/-- Nothing is taken back from a part in front of one that always matches. -/
theorem preferred?_seq {b : Pattern} (hb : b.Total) (a : Pattern) (s : List Char) :
    (seq a b).preferred? s =
      (a.preferred? s).bind fun p => (b.preferred? p.2).map (prepend p.1) := by
  rw [preferred?, readings, preferred?]
  cases a.readings s with
  | nil => rfl
  | cons p ps =>
      obtain ⟨q, hq⟩ := hb p.2
      rw [List.flatMap_cons, List.head?_append, List.head?_map, ← preferred?, hq, List.head?_cons,
        Option.bind_some, hq]
      rfl

theorem Total.seq {a b : Pattern} (ha : a.Total) (hb : b.Total) : (seq a b).Total := by
  intro s
  obtain ⟨p, hp⟩ := ha s
  obtain ⟨q, hq⟩ := hb p.2
  rw [preferred?_seq hb, hp, Option.bind_some, hq]
  exact ⟨_, rfl⟩

/-! ## Runs -/

theorem preferred?_one_seq (p : Char → Bool) (b : Pattern) (c : Char) (s : List Char) :
    (seq (one p) b).preferred? (c :: s) =
      if p c then (b.preferred? s).map (prepend [c]) else none := by
  rw [preferred?, readings_one_seq]
  split
  · rw [List.head?_map, preferred?]
  · rfl

/-- A repetition takes as many characters of a class as there are. -/
theorem preferred?_many_one (p : Char → Bool) (s : List Char) :
    (many (one p)).preferred? s = some (s.takeWhile p, s.dropWhile p) := by
  induction s with
  | nil =>
      rw [preferred?_many (takes_one p)]
      rfl
  | cons c s ih =>
      rw [preferred?_many (takes_one p), preferred?_one_seq, ih]
      cases hc : p c with
      | false => simp [hc]
      | true => simp [hc, prepend]

/-- The pattern at least once, and rather once more. -/
def atLeastOnce (a : Pattern) : Pattern :=
  seq a (many a)

theorem preferred?_atLeastOnce_one (p : Char → Bool) (s : List Char) :
    (atLeastOnce (one p)).preferred? s =
      if s.takeWhile p = [] then none else some (s.takeWhile p, s.dropWhile p) := by
  cases s with
  | nil => rfl
  | cons c s =>
      rw [atLeastOnce, preferred?_one_seq, preferred?_many_one]
      cases hc : p c with
      | false => simp [hc]
      | true => simp [hc, prepend]

/-! ## Optional parts -/

/-- Matches without taking a character. -/
def empty : Pattern :=
  many (one fun _ => false)

/-- The pattern or nothing, and rather the pattern. -/
def optional (a : Pattern) : Pattern :=
  orElse a empty

theorem readings_empty (s : List Char) : empty.readings s = [([], s)] := by
  rw [empty, readings_many (takes_one _)]
  cases s with
  | nil => rfl
  | cons c s => rw [readings_one_seq, if_neg nofun, List.nil_append]

theorem preferred?_optional (a : Pattern) (s : List Char) :
    (optional a).preferred? s = some ((a.preferred? s).getD ([], s)) := by
  have hempty : empty.preferred? s = some ([], s) := by
    rw [preferred?, readings_empty, List.head?_cons]
  rw [optional, preferred?_orElse, hempty]
  cases a.preferred? s <;> rfl

/-- An optional part is taken back if the part behind it does not match otherwise. -/
theorem preferred?_optional_seq (a b : Pattern) (s : List Char) :
    (seq (optional a) b).preferred? s = ((seq a b).preferred? s).or (b.preferred? s) := by
  have hskip : (b.readings s).map (prepend []) = b.readings s := List.map_id _
  rw [preferred?, optional, readings, readings, List.flatMap_append, readings_empty,
    List.flatMap_singleton, hskip, List.head?_append, preferred?, readings, preferred?]

end Pattern

end JsonText
