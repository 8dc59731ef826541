import MemoryHard.Json.Fault

/-!
# MemoryHard.Json.Token — blanks, words and strings in a JSON text

* `skipBlank` — the text after its blanks;
* `expectWord` — a word that has to be there;
* `readString`, `skipString` — a string after its opening quote, with or without its value.
-/

namespace MemoryHard.Json

/-- Whether a character is a blank. -/
def isBlank (c : Char) : Bool := c = ' ' || c = '\n' || c = '\t' || c = '\r'

/-- The text after its blanks. -/
def skipBlank (t : Text) : Text := t.dropWhile isBlank

/-- Takes the characters of a word from a text. -/
def expectWord : List Char → Text → Except Fault Text
  | [], t => .ok t
  | _ :: _, [] => failAt .endInValue []
  | c :: word, x :: rest =>
    if x = c then expectWord word rest else failPast .unknownWord (x :: rest)

/-! ## Strings -/

/-- The value of a hexadecimal digit. -/
def hexDigit? (c : Char) : Option Nat :=
  let n := c.toNat
  if 48 ≤ n ∧ n ≤ 57 then some (n - 48)
  else if 97 ≤ n ∧ n ≤ 102 then some (n - 87)
  else if 65 ≤ n ∧ n ≤ 70 then some (n - 55)
  else none

/-- The value of four hexadecimal digits. -/
def codeUnit? (a b c d : Char) : Option Nat := do
  return (← hexDigit? a) * 4096 + (← hexDigit? b) * 256 + (← hexDigit? c) * 16 + (← hexDigit? d)

/-- The fault of a text that does not begin with four hexadecimal digits: it ends, or the first
four bytes are no digits. -/
def codeUnitFault (rest : Text) : Fault :=
  if byteLength rest < 4 then .located .endInString 0
  else .located .badEscape (byteLength rest - 4)

/-- Whether a code unit is the first half of a pair. -/
def isFirstHalf (n : Nat) : Bool := 0xd800 ≤ n && n ≤ 0xdbff

/-- Whether a code unit is the second half of a pair. -/
def isSecondHalf (n : Nat) : Bool := 0xdc00 ≤ n && n ≤ 0xdfff

/-- The fault of a text that does not go on with the second half of a pair. -/
def secondHalfFault : Text → Fault
  | [] => .located .endInString 0
  | ['\\'] => .located .endInString 0
  | '\\' :: 'u' :: rest => codeUnitFault rest
  | '\\' :: rest => .located .endOfEscape (byteLength rest - 1)
  | rest => .located .endOfEscape (byteLength rest - 1)

/-- The character that a letter after a backslash stands for. -/
def escaped? (c : Char) : Option Char :=
  if c = '"' || c = '\\' || c = '/' then some c
  else if c = 'b' then some '\x08'
  else if c = 'f' then some '\x0c'
  else if c = 'n' then some '\n'
  else if c = 'r' then some '\r'
  else if c = 't' then some '\t'
  else none

/-- A character in front of the result of a reader. -/
def consResult (c : Char) : Result (List Char) → Result (List Char)
  | .ok (cs, rest) => .ok (c :: cs, rest)
  | .error fault => .error fault

/-- The value of a string whose opening quote has been read. -/
def readString : Text → Result (List Char)
  | [] => failAt .endInString []
  | '"' :: rest => .ok ([], rest)
  | ['\\'] => failAt .endInString []
  | '\\' :: 'u' :: rest =>
    match rest with
    | a :: b :: c :: d :: rest =>
      match codeUnit? a b c d with
      | none => .error (codeUnitFault (a :: b :: c :: d :: rest))
      | some n =>
        if isSecondHalf n then failAt .loneSurrogate rest
        else if isFirstHalf n then
          match rest with
          | '\\' :: 'u' :: e :: f :: g :: h :: rest =>
            match codeUnit? e f g h with
            | none => .error (codeUnitFault (e :: f :: g :: h :: rest))
            | some m =>
              if isSecondHalf m then
                consResult (Char.ofNat (0x10000 + (n - 0xd800) * 0x400 + (m - 0xdc00)))
                  (readString rest)
              else failAt .loneSurrogate rest
          | rest => .error (secondHalfFault rest)
        else consResult (Char.ofNat n) (readString rest)
    | rest => .error (codeUnitFault rest)
  | '\\' :: c :: rest =>
    match escaped? c with
    | some x => consResult x (readString rest)
    | none => failPast .badEscape (c :: rest)
  | c :: rest =>
    if c.toNat < 0x20 then failAt .controlCharacter rest else consResult c (readString rest)

/-- The text after a string whose opening quote has been read.  Pairs of code units need not be
complete. -/
def skipString : Text → Except Fault Text
  | [] => failAt .endInString []
  | '"' :: rest => .ok rest
  | ['\\'] => failAt .endInString []
  | '\\' :: 'u' :: rest =>
    match rest with
    | a :: b :: c :: d :: rest =>
      match codeUnit? a b c d with
      | none => .error (codeUnitFault (a :: b :: c :: d :: rest))
      | some _ => skipString rest
    | rest => .error (codeUnitFault rest)
  | '\\' :: c :: rest =>
    match escaped? c with
    | some _ => skipString rest
    | none => failPast .badEscape (c :: rest)
  | c :: rest => if c.toNat < 0x20 then failAt .controlCharacter (c :: rest) else skipString rest

end MemoryHard.Json
