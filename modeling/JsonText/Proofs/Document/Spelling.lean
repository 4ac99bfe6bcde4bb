-- SUMMARY: Well-spelled documents, and reading their tokens back from a spaced text.
import JsonText.Document.Print
import JsonText.Proofs.Document.Escape
import JsonText.Proofs.Token.Readable

/-!
# Spelled documents

A document is well spelled if its strings, keys and numbers are spelled as JSON
has them. Whatever blanks stand around its tokens, the scanner finds these
tokens and nothing else: no two numbers stand side by side, and a bare quote
closes every string.
-/

namespace JsonText

open Token (Sound Spaced)

/-! ## Well-spelled documents -/

namespace Document

mutual

/-- Strings, keys and numbers are spelled as JSON has them. -/
def WellSpelled : Document → Prop
  | null | bool _ => True
  | number s => Lexeme.IsNumber s.toList
  | string s => Escape.isString s = true
  | array ds => WellSpelledItems ds
  | object ms => WellSpelledMembers ms

/-- All items are well spelled. -/
def WellSpelledItems : List Document → Prop
  | [] => True
  | d :: ds => WellSpelled d ∧ WellSpelledItems ds

/-- All members are well spelled, and so are their keys. -/
def WellSpelledMembers : List (String × Document) → Prop
  | [] => True
  | (k, d) :: ms => Escape.isString k = true ∧ WellSpelled d ∧ WellSpelledMembers ms

end

/-! ## The tokens of a document -/

theorem tokens_array_cons_append (d : Document) (ds : List Document) (ts : List Token) :
    (array (d :: ds)).tokens ++ ts =
      ⟨.bracketOpen, "["⟩ :: (d.tokens ++ (itemTokens ds ++ ⟨.bracketClose, "]"⟩ :: ts)) := by
  simp [tokens]

theorem itemTokens_cons_append (d : Document) (ds : List Document) (ts : List Token) :
    itemTokens (d :: ds) ++ ts = ⟨.comma, ","⟩ :: (d.tokens ++ (itemTokens ds ++ ts)) := by
  simp [itemTokens]

theorem tokens_object_cons_append (k : String) (d : Document) (ms : List (String × Document))
    (ts : List Token) :
    (object ((k, d) :: ms)).tokens ++ ts =
      ⟨.braceOpen, "\x7b"⟩ :: ⟨.string, k⟩ :: ⟨.colon, ":"⟩ ::
        (d.tokens ++ (memberTokens ms ++ ⟨.braceClose, "\x7d"⟩ :: ts)) := by
  simp [tokens]

theorem memberTokens_cons_append (k : String) (d : Document) (ms : List (String × Document))
    (ts : List Token) :
    memberTokens ((k, d) :: ms) ++ ts =
      ⟨.comma, ","⟩ :: ⟨.string, k⟩ :: ⟨.colon, ":"⟩ :: (d.tokens ++ (memberTokens ms ++ ts)) := by
  simp [memberTokens]

/-- No document begins with a closer. -/
theorem exists_tokens_append (d : Document) (ts : List Token) :
    ∃ u us, d.tokens ++ ts = u :: us ∧ u.kind.isClose ≠ true := by
  match d with
  | null => exact ⟨_, _, rfl, nofun⟩
  | bool true => exact ⟨_, _, rfl, nofun⟩
  | bool false => exact ⟨_, _, rfl, nofun⟩
  | number s => exact ⟨_, _, rfl, nofun⟩
  | string s => exact ⟨_, _, rfl, nofun⟩
  | array [] => exact ⟨_, _, rfl, nofun⟩
  | array (d :: ds) => exact ⟨_, _, rfl, nofun⟩
  | object [] => exact ⟨_, _, rfl, nofun⟩
  | object ((k, d) :: ms) => exact ⟨_, _, rfl, nofun⟩

theorem tokens_ne_nil (d : Document) : d.tokens ≠ [] := by
  obtain ⟨u, us, hus, -⟩ := d.exists_tokens_append []
  rw [List.append_nil] at hus
  rw [hus]
  exact List.cons_ne_nil u us

/-! ## The tokens are sound -/

/-- The token list does not begin with a number. -/
def NoNumber (ts : List Token) : Prop :=
  ∀ u ∈ ts.head?, u.kind ≠ .number

theorem noNumber_cons {t : Token} {ts : List Token} (h : t.kind ≠ .number) :
    NoNumber (t :: ts) := by
  rintro u ⟨⟩
  exact h

theorem noNumber_itemTokens_append (ds : List Document) {ts : List Token} (h : NoNumber ts) :
    NoNumber (itemTokens ds ++ ts) := by
  cases ds with
  | nil => exact h
  | cons d ds => exact noNumber_cons nofun

theorem noNumber_memberTokens_append (ms : List (String × Document)) {ts : List Token}
    (h : NoNumber ts) : NoNumber (memberTokens ms ++ ts) := by
  cases ms with
  | nil => exact h
  | cons m ms => exact noNumber_cons nofun

theorem sound_cons_mark {t : Token} {ts : List Token} (hts : Sound ts)
    (h : t.kind.Spells t.text.toList) (hw : t.kind ≠ .whitespace) (hs : t.kind ≠ .string)
    (hn : t.kind ≠ .number) : Sound (t :: ts) :=
  hts.cons (Token.isPlain_of_ne_string h hw hs) (.inl hn)

theorem sound_cons_string {s : String} {ts : List Token} (hts : Sound ts)
    (h : Escape.isString s = true) : Sound (⟨.string, s⟩ :: ts) :=
  hts.cons (Token.isPlain_of_isClosed (Escape.isClosed_of_isString h)) (.inl nofun)

theorem sound_cons_key {k : String} {ts : List Token} (hts : Sound ts)
    (h : Escape.isString k = true) : Sound (⟨.string, k⟩ :: ⟨.colon, ":"⟩ :: ts) :=
  sound_cons_string (sound_cons_mark hts rfl nofun nofun nofun) h

mutual

theorem sound_tokens_append : ∀ {d : Document} {ts : List Token}, d.WellSpelled → Sound ts →
    NoNumber ts → Sound (d.tokens ++ ts)
  | .null, _, _, hts, _ => sound_cons_mark hts rfl nofun nofun nofun
  | .bool true, _, _, hts, _ => sound_cons_mark hts rfl nofun nofun nofun
  | .bool false, _, _, hts, _ => sound_cons_mark hts rfl nofun nofun nofun
  | .number _, _, h, hts, hn => hts.cons (Token.isPlain_of_ne_string h nofun nofun) (.inr hn)
  | .string _, _, h, hts, _ => sound_cons_string hts h
  | .array [], _, _, hts, _ =>
      sound_cons_mark (sound_cons_mark hts rfl nofun nofun nofun) rfl nofun nofun nofun
  | .array (d :: ds), ts, h, hts, _ => by
      have hclose : Sound (⟨.bracketClose, "]"⟩ :: ts) :=
        sound_cons_mark hts rfl nofun nofun nofun
      have hnum : NoNumber (⟨.bracketClose, "]"⟩ :: ts) := noNumber_cons nofun
      have hds := sound_itemTokens_append h.2 hclose hnum
      have hd := sound_tokens_append h.1 hds (noNumber_itemTokens_append ds hnum)
      rw [tokens_array_cons_append]
      exact sound_cons_mark hd rfl nofun nofun nofun
  | .object [], _, _, hts, _ =>
      sound_cons_mark (sound_cons_mark hts rfl nofun nofun nofun) rfl nofun nofun nofun
  | .object ((k, d) :: ms), ts, h, hts, _ => by
      have hclose : Sound (⟨.braceClose, "\x7d"⟩ :: ts) :=
        sound_cons_mark hts rfl nofun nofun nofun
      have hnum : NoNumber (⟨.braceClose, "\x7d"⟩ :: ts) := noNumber_cons nofun
      have hms := sound_memberTokens_append h.2.2 hclose hnum
      have hd := sound_tokens_append h.2.1 hms (noNumber_memberTokens_append ms hnum)
      rw [tokens_object_cons_append]
      exact sound_cons_mark (sound_cons_key hd h.1) rfl nofun nofun nofun

theorem sound_itemTokens_append : ∀ {ds : List Document} {ts : List Token},
    WellSpelledItems ds → Sound ts → NoNumber ts → Sound (itemTokens ds ++ ts)
  | [], _, _, hts, _ => hts
  | d :: ds, ts, h, hts, hn => by
      have hds := sound_itemTokens_append h.2 hts hn
      have hd := sound_tokens_append h.1 hds (noNumber_itemTokens_append ds hn)
      rw [itemTokens_cons_append]
      exact sound_cons_mark hd rfl nofun nofun nofun

theorem sound_memberTokens_append : ∀ {ms : List (String × Document)} {ts : List Token},
    WellSpelledMembers ms → Sound ts → NoNumber ts → Sound (memberTokens ms ++ ts)
  | [], _, _, hts, _ => hts
  | (k, d) :: ms, ts, h, hts, hn => by
      have hms := sound_memberTokens_append h.2.2 hts hn
      have hd := sound_tokens_append h.2.1 hms (noNumber_memberTokens_append ms hn)
      rw [memberTokens_cons_append]
      exact sound_cons_mark (sound_cons_key hd h.1) rfl nofun nofun nofun

end

theorem sound_tokens {d : Document} (h : d.WellSpelled) : Sound d.tokens := by
  have hd := sound_tokens_append h Token.Sound.nil (by rintro u ⟨⟩)
  rwa [List.append_nil] at hd

/-! ## The text of a document -/

/-- The text spells the document as JSON: its tokens in order, with any blanks around them. -/
structure IsText (d : Document) (text : String) : Prop where
  wellSpelled : d.WellSpelled
  spaced : Spaced (fun _ _ => False) d.tokens text.toList

theorem IsText.structural_eq {d : Document} {text : String} (h : d.IsText text) :
    Token.structural text = d.tokens :=
  h.spaced.structural_of_sound (sound_tokens h.wellSpelled)

theorem IsText.ne_empty {d : Document} {text : String} (h : d.IsText text) : text ≠ "" := by
  rintro rfl
  apply d.tokens_ne_nil
  rw [← h.structural_eq, Token.structural_empty]

end Document

end JsonText
