-- SUMMARY: When a pipeline of layouts gives what its last pass alone gives.
import JsonText.Pipeline
import JsonText.Proofs.Document.Spelling
import JsonText.Proofs.Layout.Idempotence
import JsonText.Standard.Writer

/-!
# Pipelines of layouts

What a layout gives depends on the tokens that it finds, and a text whose
tokens stay apart keeps them through every layout. So only the last pass of a
pipeline of layouts counts. Where two numbers run together, minifying changes
the tokens, and a layout behind it shows that.
-/

namespace JsonText

open Layout (tokens HasStructure)
open Token (Fuses)

/-! ## Texts with stable tokens -/

namespace Layout

/-- Every layout keeps the tokens of the text: there are some, and no two of them run
together. -/
structure Stable (x : String) : Prop where
  ne_nil : tokens x ≠ []
  apart : (tokens x).IsChain fun a b => ¬ Fuses a b

theorem Stable.congr {x y : String} (h : Stable x) (hy : tokens y = tokens x) : Stable y where
  ne_nil := hy ▸ h.ne_nil
  apart := hy ▸ h.apart

theorem stable_empty : Stable "" where
  ne_nil := by
    rw [tokens_empty]
    exact List.cons_ne_nil _ _
  apart := by
    rw [tokens_empty]
    exact List.isChain_singleton _

theorem stable_iff (x : String) :
    Stable x ↔ x = "" ∨
      HasStructure x ∧ (Token.structural x).IsChain fun a b => ¬ Fuses a b := by
  by_cases hx : x = ""
  · subst hx
    simp [stable_empty]
  · rw [← structural_ne_nil_iff, ← tokens_of_ne_empty hx]
    constructor
    · intro h
      exact .inr ⟨h.ne_nil, h.apart⟩
    · intro h
      obtain ⟨hne, hc⟩ := h.resolve_left hx
      exact ⟨hne, hc⟩

end Layout

theorem Document.IsText.stable {d : Document} {x : String} (h : d.IsText x) :
    Layout.Stable x := by
  have htokens : Layout.tokens x = d.tokens := by
    rw [Layout.tokens_of_ne_empty h.ne_empty, h.structural_eq]
  constructor
  · rw [htokens]
    exact d.tokens_ne_nil
  · rw [htokens]
    exact (Document.sound_tokens h.wellSpelled).apart

/-! ## Runs of layouts -/

namespace Pass

/-- The pass lays a text out. -/
def IsLayout (p : Pass) : Prop :=
  p = .format ∨ p = .minify

section

variable (w : Writer) (encoding : TokenEncoding)

/-- The text behind the last pass of a pipeline, or the text itself if there is no pass. -/
def runToEnd (text : String) (ps : List Pass) : Except FormatterError String :=
  (runAll w encoding text ps).map (·.getLastD text)

/-- However many layouts come before it, a layout gives what it gives on the text itself. -/
def Collapses (text : String) : Prop :=
  ∀ (ps : List Pass) (p : Pass), (∀ q ∈ ps ++ [p], q.IsLayout) →
    runToEnd w encoding text (ps ++ [p]) = p.run w encoding text

end

variable {w : Writer} {encoding : TokenEncoding}

theorem runToEnd_cons {text next : String} {p : Pass} (h : p.run w encoding text = .ok next)
    (ps : List Pass) :
    runToEnd w encoding text (p :: ps) = runToEnd w encoding next ps := by
  have hall : runAll w encoding text (p :: ps) =
      (runAll w encoding next ps >>= fun later => .ok (next :: later)) := by
    rw [runAll, h]
    rfl
  rw [runToEnd, hall, runToEnd]
  cases runAll w encoding next ps with
  | error e => rfl
  | ok later => exact congrArg Except.ok List.getLastD_cons

variable {text : String} {p : Pass}

theorem IsLayout.exists_run (hp : p.IsLayout) (w : Writer) (encoding : TokenEncoding)
    (text : String) : ∃ next, p.run w encoding text = .ok next := by
  rcases hp with rfl | rfl
  · exact ⟨JsonText.format text, rfl⟩
  · exact ⟨JsonText.minify text, rfl⟩

/-- A layout looks at nothing but the tokens. -/
theorem IsLayout.run_congr {other : String} (hp : p.IsLayout) (h : tokens text = tokens other) :
    p.run w encoding text = p.run w encoding other := by
  rcases hp with rfl | rfl
  · exact congrArg Except.ok (Layout.format_congr h)
  · exact congrArg Except.ok (Layout.minify_congr h)

/-- A layout keeps stable tokens. -/
theorem IsLayout.tokens_run {next : String} (hp : p.IsLayout) (hs : Layout.Stable text)
    (h : p.run w encoding text = .ok next) : tokens next = tokens text := by
  rcases hp with rfl | rfl
  · obtain rfl : JsonText.format text = next := Except.ok.inj h
    exact Layout.tokens_format hs.ne_nil
  · obtain rfl : JsonText.minify text = next := Except.ok.inj h
    exact Layout.tokens_minify hs.ne_nil hs.apart

theorem IsLayout.runToEnd_singleton (hp : p.IsLayout) (text : String) :
    runToEnd w encoding text [p] = p.run w encoding text := by
  obtain ⟨next, hnext⟩ := hp.exists_run w encoding text
  rw [runToEnd_cons hnext, hnext]
  rfl

/-- On a text with stable tokens only the last layout counts. -/
theorem collapses_of_stable (hs : Layout.Stable text) : Collapses w encoding text := by
  intro ps p hall
  have hp : p.IsLayout := hall p (by simp)
  -- The tokens are the invariant: behind each layout they are those of the text.
  induction ps generalizing text with
  | nil => exact hp.runToEnd_singleton text
  | cons q ps ih =>
      have hq : q.IsLayout := hall q (by simp)
      have hrest : ∀ r ∈ ps ++ [p], r.IsLayout := fun r hr => hall r (List.mem_cons_of_mem q hr)
      obtain ⟨next, hnext⟩ := hq.exists_run w encoding text
      have htokens := hq.tokens_run hs hnext
      calc runToEnd w encoding text (q :: (ps ++ [p]))
        _ = runToEnd w encoding next (ps ++ [p]) := runToEnd_cons hnext _
        _ = p.run w encoding next := ih (hs.congr htokens) hrest
        _ = p.run w encoding text := hp.run_congr htokens

/-! ## Texts on which pipelines collapse -/

theorem Collapses.format_eq (h : Collapses w encoding text) (hp : p.IsLayout) {next : String}
    (hnext : p.run w encoding text = .ok next) : JsonText.format next = JsonText.format text := by
  have hall : ∀ q ∈ [p] ++ [.format], q.IsLayout := by
    simp only [List.cons_append, List.nil_append, List.forall_mem_cons]
    exact ⟨hp, .inl rfl, List.forall_mem_nil _⟩
  have hend := h [p] .format hall
  rw [List.cons_append, runToEnd_cons hnext] at hend
  exact Except.ok.inj hend

theorem Collapses.stable (h : Collapses w encoding text) : Layout.Stable text := by
  have hne : tokens text ≠ [] := by
    intro hnil
    have heq := h.format_eq (.inl rfl) rfl
    -- The layout is empty, and the next layout takes it for `null`.
    rw [Layout.format_of_tokens_eq_nil hnil, Layout.format_empty] at heq
    exact absurd heq (by decide)
  have heq := h.format_eq (.inr rfl) rfl
  refine ⟨hne, Layout.isChain_of_structural_minify ?_⟩
  -- The indented layout tells the tokens of the minified text from others.
  rw [← Layout.tokens_of_ne_empty (Layout.minify_ne_empty hne), ← Layout.structural_format, heq,
    Layout.structural_format]

theorem collapses_iff_stable : Collapses w encoding text ↔ Layout.Stable text :=
  ⟨Collapses.stable, collapses_of_stable⟩

end Pass

open Pass

/-- Pipelines of layouts collapse to their last pass exactly on the empty text and on texts
with structure in which no number other than zero stands, but for blanks and unknown
fragments, directly before a number that begins with a digit. The texts of documents are
among these. -/
theorem collapses_iff (w : Writer) (encoding : TokenEncoding) (x : String) :
    (Collapses w encoding x ↔ x = "" ∨
      HasStructure x ∧ (Token.structural x).IsChain fun a b => ¬ Fuses a b) ∧
      ∀ d : Document, d.IsText x → Collapses w encoding x := by
  constructor
  · rw [collapses_iff_stable, Layout.stable_iff]
  · intro d hd
    exact collapses_of_stable hd.stable

/-- A document through three layouts. -/
theorem collapses_array :
    (Document.array [.number "10", .string "\"a b\""]).IsText "[10 ,\n\"a b\"]" ∧
      runToEnd .standard .derived "[10 ,\n\"a b\"]" [.minify, .format, .minify] =
        .ok "[10,\"a b\"]" := by
  have hnumber : Lexeme.number? "10".toList = some ("10".toList, []) := by decide
  have hstring : Escape.isString "\"a b\"" = true := by decide
  have htext : (Document.array [.number "10", .string "\"a b\""]).IsText
      "[10 ,\n\"a b\"]" := by
    constructor
    · exact ⟨(Lexeme.isNumber_of_number? hnumber).1, hstring, trivial⟩
    · exact .cons (g := []) (by decide) nofun <| .cons (g := []) (by decide) nofun <|
        .cons (g := [' ']) (by decide) nofun <| .cons (g := ['\n']) (by decide) nofun <|
        .cons (g := []) (by decide) nofun <| .nil (g := []) (by decide)
  have hend := (collapses_iff .standard .derived _).2 _ htext [.minify, .format] .minify
    (by simp [IsLayout])
  refine ⟨htext, hend.trans ?_⟩
  rw [run, Layout.minify_eq_concat, Layout.tokens_of_ne_empty htext.ne_empty, htext.structural_eq]
  rfl

end JsonText
