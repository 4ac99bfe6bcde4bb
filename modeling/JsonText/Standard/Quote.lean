-- SUMMARY: Writing a text as a string in quotes.

/-!
# Quoting

A quote, a backslash and a control character are written with a backslash, by a
letter or by their code. Every other character stands for itself.
-/

namespace JsonText.Standard

/-- A character below U+0020 as an escape with its code in four lower-case digits. -/
def ofControl (c : Char) : List Char :=
  ['\\', 'u', '0', '0', (c.toNat / 16).digitChar, (c.toNat % 16).digitChar]

/-- A character as it is written between quotes. -/
def ofChar (c : Char) : List Char :=
  match c with
  | '"' => ['\\', '"']
  | '\\' => ['\\', '\\']
  | '\x08' => ['\\', 'b']
  | '\t' => ['\\', 't']
  | '\n' => ['\\', 'n']
  | '\x0c' => ['\\', 'f']
  | '\r' => ['\\', 'r']
  | c => if c.toNat < 0x20 then ofControl c else [c]

/-- A text in quotes. -/
def quote (s : String) : String :=
  String.ofList ('"' :: s.toList.flatMap ofChar ++ ['"'])

end JsonText.Standard
