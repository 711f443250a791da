/-
  LazyFields.Text.Quoted
  ────────────────────────────────
  **QUOTED TEXT.**

  A text in double quotes, in the form in which a reader of a log sees it:
  quotes and backslashes are escaped, five control characters have a letter
  of their own, and what else cannot be seen is named by its number.
-/
import LazyFields.Text.Shown

namespace LazyFields.Text

/-- A character by its number, in hexadecimal digits. -/
def numbered (c : Char) : List Char :=
  "\\u\x7b".toList ++ Nat.toDigits 16 c.toNat ++ ['\x7d']

/-- A character within quotes. -/
def quotedChar (c : Char) : List Char :=
  if c = '"' then ['\\', '"']
  else if c = '\\' then ['\\', '\\']
  else if c = '\n' then ['\\', 'n']
  else if c = '\t' then ['\\', 't']
  else if c = '\r' then ['\\', 'r']
  else if c = '\x00' then ['\\', '0']
  else if isShown c then [c]
  else numbered c

/-- A text in quotes. -/
def quoted (s : String) : String :=
  String.ofList (['"'] ++ s.toList.flatMap quotedChar ++ ['"'])

end LazyFields.Text
