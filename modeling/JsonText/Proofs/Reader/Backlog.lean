-- SUMMARY: Readers answer as plain lists of the tokens to come would, whatever is asked of which.
import JsonText.Reader.Session
import JsonText.Proofs.Reader.Lossless
import JsonText.Proofs.Token.Spaced

/-!
# Readers as lists of tokens

A reader keeps its place in the text and perhaps a pending token. What can be seen
of it is only the list of the tokens to come, its backlog: an answer is read off
that list, and the request takes tokens off its front. So a session over several
readers is a session over several lists, and no list knows of the others.
-/

namespace JsonText

open Reader (Request Reply Session)
open Token (Kind scan)

/-! ## Lists of tokens to come -/

/-- A text, and those of its tokens that are not yet consumed. -/
structure Backlog where
  /-- The text that the tokens are cut from. -/
  text : String
  /-- The tokens to come. -/
  left : List Token

namespace Backlog

/-- All tokens of the text are to come. -/
def ofString (text : String) : Backlog :=
  ⟨text, Token.tokenize text⟩

/-- The answer to a request, read off the list of the tokens to come, and what is left of the
list. -/
def answer (b : Backlog) : Request → Reply × Backlog
  | .next => (.token b.left.head?, ⟨b.text, b.left.tail⟩)
  | .nth n => (.token b.left[n]?, ⟨b.text, b.left.drop (n + 1)⟩)
  | .take n => (.tokens (b.left.take n), ⟨b.text, b.left.drop n⟩)
  | .find k =>
    (.token (b.left.find? (·.kind = k)), ⟨b.text, (b.left.dropWhile (·.kind ≠ k)).tail⟩)
  | .rest => (.tokens b.left, ⟨b.text, []⟩)
  | .count => (.count b.left.length, ⟨b.text, []⟩)
  | .last => (.token b.left.getLast?, ⟨b.text, []⟩)
  | .restart => (.restarted, ofString b.text)

/-- The answers to requests that are made one after another. -/
def replies (b : Backlog) : List Request → List Reply
  | [] => []
  | q :: qs => (b.answer q).1 :: (b.answer q).2.replies qs

/-- The backlog behind requests that are made one after another. -/
def after (b : Backlog) (qs : List Request) : Backlog :=
  qs.foldl (fun b q => (b.answer q).2) b

/-- The answers to a list of requests, each with the number of its backlog. -/
def run? (bs : List Backlog) : List (Nat × Request) → Option (List Reply)
  | [] => some []
  | (i, q) :: steps =>
    bs[i]?.bind fun b =>
      (run? (bs.set i (b.answer q).2) steps).map ((b.answer q).1 :: ·)

end Backlog

/-- The requests that go to reader `i`. -/
def Reader.requestsTo (i : Nat) (steps : List (Nat × Request)) : List Request :=
  (steps.filter (·.1 = i)).map (·.2)

/-- The answers that come from reader `i`, where `as` are the answers to `steps`. -/
def Reader.repliesTo (i : Nat) (steps : List (Nat × Request)) (as : List Reply) : List Reply :=
  ((steps.zip as).filter (·.1.1 = i)).map (·.2)

/-- The answer to a request where no token is to come. -/
def Reader.Request.nothing : Request → Reply
  | .next | .nth _ | .find _ | .last => .token none
  | .take _ | .rest => .tokens []
  | .count => .count 0
  | .restart => .restarted

/-! ## One reader -/

namespace Reader

/-- A backlog follows a reader: it keeps the tokens that are still to come. -/
def Follows (r : Reader) (b : Backlog) : Prop :=
  ∃ ts s, Invariant b.text ts s r ∧ b.left = r.pending.toList ++ scan s

theorem follows_ofString (text : String) : (ofString text).Follows (.ofString text) :=
  ⟨[], text.toList, invariant_ofString text, Token.tokenize_nothing text⟩

namespace Follows

variable {r : Reader} {b : Backlog}

theorem input_eq (h : r.Follows b) : r.input = b.text := by
  obtain ⟨ts, s, hinv, -⟩ := h
  exact hinv.input

/-- A call yields the first token of the backlog, or there is none. -/
theorem next (h : r.Follows b) :
    (b.left = [] ∧ r.next = .ok none) ∨
      ∃ t r' left, b.left = t :: left ∧ r.next = .ok (some (t, r')) ∧
        r'.Follows ⟨b.text, left⟩ := by
  obtain ⟨ts, s, hinv, hleft⟩ := h
  rcases hinv.next_spec with ⟨hnext, hnil⟩ | ⟨t, r', s', hnext, hinv', hcons⟩
  · exact .inl ⟨hleft.trans hnil, hnext⟩
  · exact .inr ⟨t, r', _, hleft.trans hcons, hnext, _, s', hinv', rfl⟩

/-- A backlog without tokens follows a reader that is at its end. -/
theorem ended (h : r.Follows b) (hnil : b.left = []) : r.Follows ⟨b.text, []⟩ := by
  obtain ⟨ts, s, hinv, hleft⟩ := h
  exact ⟨ts, s, hinv, hnil.symm.trans hleft⟩

/-! ## One request -/

theorem advance (h : r.Follows b) (n : Nat) :
    ∃ r', r.advance n = .ok r' ∧ r'.Follows ⟨b.text, b.left.drop n⟩ := by
  induction n generalizing r b with
  | zero => exact ⟨r, rfl, h⟩
  | succ n ih =>
      rw [Reader.advance]
      rcases h.next with ⟨hnil, hnext⟩ | ⟨t, r', left, hcons, hnext, h'⟩
      · rw [hnext, hnil, List.drop_nil]
        exact ⟨r, rfl, h.ended hnil⟩
      · rw [hnext, hcons, List.drop_succ_cons]
        exact ih h'

theorem take (h : r.Follows b) (n : Nat) :
    ∃ r', r.take n = .ok (b.left.take n, r') ∧ r'.Follows ⟨b.text, b.left.drop n⟩ := by
  induction n generalizing r b with
  | zero => exact ⟨r, rfl, h⟩
  | succ n ih =>
      rcases h.next with ⟨hnil, hnext⟩ | ⟨t, r', left, hcons, hnext, h'⟩
      · rw [take_of_next_eq_none hnext, hnil, List.take_nil, List.drop_nil]
        exact ⟨r, rfl, h.ended hnil⟩
      · obtain ⟨r'', htake, h''⟩ := ih h'
        rw [take_succ_of_next_eq_some hnext, htake, hcons, List.take_succ_cons,
          List.drop_succ_cons]
        exact ⟨r'', rfl, h''⟩

theorem find (h : r.Follows b) (k : Kind) :
    ∃ r', r.find k = .ok (b.left.find? (·.kind = k), r') ∧
      r'.Follows ⟨b.text, (b.left.dropWhile (·.kind ≠ k)).tail⟩ := by
  generalize hts : b.left = ts
  induction ts generalizing r b with
  | nil =>
      rcases h.next with ⟨-, hnext⟩ | ⟨t, r', left, hcons, -⟩
      · exact ⟨r, find_of_next_eq_none hnext, h.ended hts⟩
      · rw [hts] at hcons; cases hcons
  | cons t ts ih =>
      rcases h.next with ⟨hnil, -⟩ | ⟨t', r', left, hcons, hnext, h'⟩
      · rw [hts] at hnil; cases hnil
      · rw [hts] at hcons
        obtain ⟨rfl, rfl⟩ := List.cons.inj hcons
        rw [find_of_next_eq_some hnext, List.find?_cons, List.dropWhile_cons]
        by_cases hk : t.kind = k
        · simpa [hk] using h'
        · simpa [hk] using ih h' rfl

theorem fold {α : Type} (h : r.Follows b) (f : α → Token → α) (a : α) :
    ∃ r', r.fold f a = .ok (b.left.foldl f a, r') ∧ r'.Follows ⟨b.text, []⟩ := by
  obtain ⟨ts, s, hinv, hleft⟩ := h
  obtain ⟨r', hfold, hinv', hp⟩ := hinv.fold_spec f a
  refine ⟨r', by rw [hfold, hleft], _, [], hinv', ?_⟩
  rw [hp, Token.scan_nil]
  rfl

theorem nextOrEnd (h : r.Follows b) :
    ∃ r', answer.nextOrEnd r = .ok (.token b.left.head?, r') ∧
      r'.Follows ⟨b.text, b.left.tail⟩ := by
  rw [answer.nextOrEnd]
  rcases h.next with ⟨hnil, hnext⟩ | ⟨t, r', left, hcons, hnext, h'⟩
  · rw [hnext, hnil]
    exact ⟨r, rfl, h.ended hnil⟩
  · rw [hnext, hcons]
    exact ⟨r', rfl, h'⟩

end Follows

theorem foldl_count (n : Nat) (ts : List Token) :
    ts.foldl (fun n _ => n + 1) n = n + ts.length := by
  induction ts generalizing n with
  | nil => rfl
  | cons t ts ih => rw [List.foldl_cons, ih, List.length_cons, Nat.add_assoc, Nat.add_comm 1]

theorem foldl_last (u : Option Token) (ts : List Token) :
    ts.foldl (fun _ t => some t) u = ts.getLast?.or u := by
  induction ts generalizing u with
  | nil => rfl
  | cons t ts ih => rw [List.foldl_cons, ih, List.getLast?_cons]; cases ts.getLast? <;> rfl

/-- No request fails. A reader answers as the backlog that follows it, and the backlog behind the
answer follows the reader behind it. -/
theorem Follows.answer {r : Reader} {b : Backlog} (h : r.Follows b) (q : Request) :
    ∃ r', r.answer q = .ok ((b.answer q).1, r') ∧ r'.Follows (b.answer q).2 := by
  cases q with
  | next => exact h.nextOrEnd
  | nth n =>
      obtain ⟨r₁, hadvance, h₁⟩ := h.advance n
      obtain ⟨r', hnext, h'⟩ := h₁.nextOrEnd
      rw [List.head?_drop] at hnext
      rw [List.tail_drop] at h'
      exact ⟨r', by rw [Reader.answer, hadvance]; exact hnext, h'⟩
  | take n =>
      obtain ⟨r', htake, h'⟩ := h.take n
      exact ⟨r', by rw [Reader.answer, htake]; rfl, h'⟩
  | find k =>
      obtain ⟨r', hfind, h'⟩ := h.find k
      exact ⟨r', by rw [Reader.answer, hfind]; rfl, h'⟩
  | rest =>
      obtain ⟨r', hfold, h'⟩ := h.fold Array.push #[]
      refine ⟨r', ?_, h'⟩
      rw [Reader.answer, hfold]
      simp [Backlog.answer, Prod.map]
  | count =>
      obtain ⟨r', hfold, h'⟩ := h.fold (fun n _ => n + 1) 0
      rw [foldl_count, Nat.zero_add] at hfold
      exact ⟨r', by rw [Reader.answer, hfold]; rfl, h'⟩
  | last =>
      obtain ⟨r', hfold, h'⟩ := h.fold (fun _ t => some t) none
      rw [foldl_last, Option.or_none] at hfold
      exact ⟨r', by rw [Reader.answer, hfold]; rfl, h'⟩
  | restart =>
      refine ⟨r.restart, rfl, ?_⟩
      rw [restart, h.input_eq]
      exact follows_ofString b.text

end Reader

/-! ## Several readers -/

namespace Reader.Session

/-- Each reader is followed by the backlog at its place, and no backlog is left over. -/
def Follows (s : Session) (bs : List Backlog) : Prop :=
  ∀ i : Nat, Option.Rel Reader.Follows s.readers[i]? bs[i]?

theorem follows_ofTexts (texts : List String) :
    (ofTexts texts).Follows (texts.map .ofString) := by
  intro i
  rw [ofTexts, List.getElem?_map, List.getElem?_map]
  cases texts[i]? with
  | none => exact .none
  | some text => exact .some (follows_ofString text)

theorem Follows.set {s : Session} {bs : List Backlog} (h : s.Follows bs) {i : Nat} {r : Reader}
    {b : Backlog} (hrb : r.Follows b) : Follows ⟨s.readers.set i r⟩ (bs.set i b) := by
  intro j
  rw [List.getElem?_set, List.getElem?_set]
  split
  · have hi := h i
    generalize hs : s.readers[i]? = o, hb : bs[i]? = o' at hi
    cases hi with
    | none =>
        rw [if_neg (Nat.not_lt.mpr (List.getElem?_eq_none_iff.mp hs)),
          if_neg (Nat.not_lt.mpr (List.getElem?_eq_none_iff.mp hb))]
        exact .none
    | some _ =>
        rw [if_pos (List.getElem?_eq_some_iff.mp hs).1, if_pos (List.getElem?_eq_some_iff.mp hb).1]
        exact .some hrb
  · exact h j

/-- A session answers as the backlogs do that follow its readers. -/
theorem run?_eq {s : Session} {bs : List Backlog} (h : s.Follows bs)
    (steps : List (Nat × Request)) : s.run? steps = Backlog.run? bs steps := by
  induction steps generalizing s bs with
  | nil => rfl
  | cons p steps ih =>
      obtain ⟨i, q⟩ := p
      have hi := h i
      rw [run?, ask?, Backlog.run?]
      generalize s.readers[i]? = o, bs[i]? = o' at hi
      cases hi with
      | none => rfl
      | some hrb =>
          obtain ⟨r', hanswer, h'⟩ := hrb.answer q
          simp only [Option.bind_eq_bind, Option.bind_some, hanswer, Except.toOption,
            Option.pure_def, ih (h.set h')]
          exact Option.map_eq_bind.symm

end Reader.Session

namespace Backlog

/-- Every request is answered if it names one of the backlogs. -/
theorem run?_eq_none_iff {bs : List Backlog} {steps : List (Nat × Request)} :
    run? bs steps = none ↔ ∃ p ∈ steps, bs.length ≤ p.1 := by
  induction steps generalizing bs with
  | nil => simp [run?]
  | cons p steps ih =>
      obtain ⟨i, q⟩ := p
      rw [run?]
      cases hb : bs[i]? with
      | none => simpa using .inl (List.getElem?_eq_none_iff.mp hb)
      | some b =>
          have hlt : ¬ bs.length ≤ i := by
            intro hle
            rw [List.getElem?_eq_none hle] at hb
            exact absurd hb nofun
          rw [Option.bind_some, Option.map_eq_none_iff, ih, List.length_set,
            List.exists_mem_cons_iff]
          exact (or_iff_right hlt).symm

/-- The answers of one backlog depend on the requests to it alone. -/
theorem repliesTo_eq {bs : List Backlog} {steps : List (Nat × Request)} {as : List Reply}
    (h : run? bs steps = some as) {i : Nat} {b : Backlog} (hb : bs[i]? = some b) :
    Reader.repliesTo i steps as = b.replies (Reader.requestsTo i steps) := by
  induction steps generalizing bs as b with
  | nil => rfl
  | cons p steps ih =>
      obtain ⟨j, q⟩ := p
      rw [run?, Option.bind_eq_some_iff] at h
      obtain ⟨c, hc, h⟩ := h
      obtain ⟨as, has, rfl⟩ := Option.map_eq_some_iff.mp h
      rw [Reader.repliesTo, Reader.requestsTo, List.zip_cons_cons, List.filter_cons,
        List.filter_cons]
      by_cases hij : j = i
      · subst hij
        obtain rfl : c = b := Option.some.inj (hc.symm.trans hb)
        have hset : (bs.set j (c.answer q).2)[j]? = some (c.answer q).2 :=
          List.getElem?_set_self (List.getElem?_eq_some_iff.mp hb).1
        simp only [decide_true, if_true, List.map_cons, replies]
        exact congrArg _ (ih has hset)
      · have hset : (bs.set j (c.answer q).2)[i]? = some b := by
          rw [List.getElem?_set_ne hij, hb]
        simp only [hij, decide_false, Bool.false_eq_true, if_false]
        exact ih has hset

/-! ## Backlogs that have come to their end -/

theorem replies_append (b : Backlog) (qs qs' : List Request) :
    b.replies (qs ++ qs') = b.replies qs ++ (b.after qs).replies qs' := by
  induction qs generalizing b with
  | nil => rfl
  | cons q qs ih => rw [List.cons_append, replies, ih]; rfl

theorem length_replies (b : Backlog) (qs : List Request) : (b.replies qs).length = qs.length := by
  induction qs generalizing b with
  | nil => rfl
  | cons q qs ih => rw [replies, List.length_cons, ih, List.length_cons]

/-- Where no token is to come, only a restart changes anything. -/
theorem answer_of_left_eq_nil {b : Backlog} (h : b.left = []) {q : Request}
    (hq : q ≠ .restart) : b.answer q = (q.nothing, b) := by
  obtain ⟨text, left⟩ := b
  obtain rfl : left = [] := h
  cases q with
  | restart => exact absurd rfl hq
  | _ => simp [answer, Request.nothing]

theorem replies_of_left_eq_nil {b : Backlog} (h : b.left = []) {qs : List Request}
    (hqs : .restart ∉ qs) : b.replies qs = qs.map Request.nothing := by
  induction qs with
  | nil => rfl
  | cons q qs ih =>
      rw [List.mem_cons, not_or] at hqs
      rw [replies, answer_of_left_eq_nil h (Ne.symm hqs.1), List.map_cons, ih hqs.2]

theorem length_repliesTo {steps : List (Nat × Request)} {as : List Reply}
    (h : as.length = steps.length) (i : Nat) :
    (Reader.repliesTo i steps as).length = (Reader.requestsTo i steps).length := by
  have hzip : (steps.zip as).map Prod.fst = steps := List.map_fst_zip h.ge
  have hfilter : (steps.filter (·.1 = i)).length =
      ((steps.zip as).filter (·.1.1 = i)).length := by
    conv_lhs => rw [← hzip]
    rw [List.filter_map, List.length_map]
    rfl
  rw [Reader.repliesTo, Reader.requestsTo, List.length_map, List.length_map, hfilter]

theorem map_ofString_getElem? {texts : List String} {i : Nat} {text : String}
    (h : texts[i]? = some text) : (texts.map ofString)[i]? = some (ofString text) := by
  rw [List.getElem?_map, h, Option.map_some]

/-- Once no token is to come, a backlog answers that there is nothing until it is restarted. -/
theorem repliesTo_of_ended {bs : List Backlog} {before later : List (Nat × Request)}
    {as as' : List Reply} (h : run? bs (before ++ later) = some (as ++ as'))
    (hlen : as.length = before.length) {i : Nat} {b : Backlog} (hb : bs[i]? = some b)
    (hend : (b.after (Reader.requestsTo i before)).left = [])
    (hlater : .restart ∉ Reader.requestsTo i later) :
    Reader.repliesTo i later as' = (Reader.requestsTo i later).map Request.nothing := by
  have hall := repliesTo_eq h hb
  have hrequests : Reader.requestsTo i (before ++ later) =
      Reader.requestsTo i before ++ Reader.requestsTo i later := by
    rw [Reader.requestsTo, List.filter_append, List.map_append]
    rfl
  have hreplies : Reader.repliesTo i (before ++ later) (as ++ as') =
      Reader.repliesTo i before as ++ Reader.repliesTo i later as' := by
    rw [Reader.repliesTo, List.zip_append hlen.symm, List.filter_append, List.map_append]
    rfl
  rw [hrequests, hreplies, replies_append, replies_of_left_eq_nil hend hlater] at hall
  refine (List.append_inj hall ?_).2
  rw [length_repliesTo hlen, length_replies]

end Backlog

/-- A session over any texts answers as lists of their tokens would from which each request
takes what it passes. Every request is answered if it names a text. The answers of one reader
depend on its own text and on the requests to it alone, and once no token of the text is to
come it answers that there is nothing until it is restarted. -/
theorem run?_ofTexts (texts : List String) (steps : List (Nat × Request)) :
    (Session.ofTexts texts).run? steps = Backlog.run? (texts.map .ofString) steps ∧
      ((Session.ofTexts texts).run? steps = none ↔ ∃ p ∈ steps, texts.length ≤ p.1) ∧
      (∀ as, (Session.ofTexts texts).run? steps = some as → ∀ i text, texts[i]? = some text →
        Reader.repliesTo i steps as =
          (Backlog.ofString text).replies (Reader.requestsTo i steps)) ∧
      ∀ before later as as', steps = before ++ later → as.length = before.length →
        (Session.ofTexts texts).run? steps = some (as ++ as') →
        ∀ i text, texts[i]? = some text →
          ((Backlog.ofString text).after (Reader.requestsTo i before)).left = [] →
          .restart ∉ Reader.requestsTo i later →
          Reader.repliesTo i later as' = (Reader.requestsTo i later).map Request.nothing := by
  have hrun : (Session.ofTexts texts).run? steps =
      Backlog.run? (texts.map .ofString) steps :=
    Session.run?_eq (Session.follows_ofTexts texts) steps
  rw [hrun]
  refine ⟨rfl, ?_, ?_, ?_⟩
  · rw [Backlog.run?_eq_none_iff, List.length_map]
  · intro as has i text htext
    exact Backlog.repliesTo_eq has (Backlog.map_ofString_getElem? htext)
  · rintro before later as as' rfl hlen has i text htext hend hlater
    exact Backlog.repliesTo_of_ended has hlen (Backlog.map_ofString_getElem? htext) hend hlater

/-- Two readers of one text: the first one yields a gap and then holds the number behind it,
while the second one runs to its end, is asked in vain, and yields the gap after a restart. -/
theorem run?_ofTexts_interleaved :
    (Session.ofTexts ["?1", "?1"]).run?
        [(0, .next), (1, .count), (0, .next), (1, .take 2), (1, .restart), (1, .find .unknown)] =
        some [.token (some ⟨.unknown, "?"⟩), .count 2, .token (some ⟨.number, "1"⟩), .tokens [],
          .restarted, .token (some ⟨.unknown, "?"⟩)] ∧
      Reader.repliesTo 1 [(0, .next), (1, .take 2)]
          [.token (some ⟨.number, "1"⟩), .tokens []] = [.tokens []] := by
  have hsearch : Lexeme.search "?1".toList = ⟨['?'], some (['1'], [])⟩ := by decide
  have htokens : Token.tokenize "?1" = [⟨.unknown, "?"⟩, ⟨.number, "1"⟩] := by
    rw [Token.tokenize_nothing, Token.scan_eq, hsearch]
    dsimp only
    rw [Token.scan_nil]
    decide
  constructor
  · rw [(run?_ofTexts _ _).1]
    simp [Backlog.run?, Backlog.answer, Backlog.ofString, htokens]
  · have hrun : (Session.ofTexts ["?1", "?1"]).run?
        [(0, .next), (1, .count), (0, .next), (1, .take 2)] =
          some ([.token (some ⟨.unknown, "?"⟩), .count 2] ++
            [.token (some ⟨.number, "1"⟩), .tokens []]) := by
      rw [(run?_ofTexts _ _).1]
      simp [Backlog.run?, Backlog.answer, Backlog.ofString, htokens]
    exact (run?_ofTexts _ _).2.2.2 [(0, .next), (1, .count)] [(0, .next), (1, .take 2)] _ _ rfl rfl
      hrun 1 "?1" rfl rfl (by decide)

end JsonText
