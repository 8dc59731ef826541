import MemoryHard.Text.Hidden

/-!
# MemoryHard.Text.Quoted — text between quotes

A quoted text stands on one line and shows each of its characters: a backslash goes before the
quote and the backslash, some controls have a letter, and every other hidden character is
written by its number.

* `quoted` — a string between double quotes;
* `quotedChar` — a character between single quotes.
-/

namespace MemoryHard.Text

/-- How a character is written between two marks `quote`. -/
def escape (quote c : Char) : List Char :=
  if c = '\x00' then ['\\', '0']
  else if c = '\t' then ['\\', 't']
  else if c = '\r' then ['\\', 'r']
  else if c = '\n' then ['\\', 'n']
  else if c = quote || c = '\\' then ['\\', c]
  else if isHidden c then ['\\', 'u', '\x7b'] ++ Nat.toDigits 16 c.toNat ++ ['\x7d']
  else [c]

/-- A text between double quotes. -/
def quoted (s : String) : String := String.ofList ('"' :: s.toList.flatMap (escape '"') ++ ['"'])

/-- A character between single quotes. -/
def quotedChar (c : Char) : String := String.ofList ('\'' :: escape '\'' c ++ ['\''])

end MemoryHard.Text
