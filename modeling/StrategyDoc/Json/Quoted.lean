import StrategyDoc.Json.Fault

/-! # Quoted strings

A string is written between quotes.  A quote, a backslash and the control characters below
the space are escaped, everything else stands for itself (`quote`).  Reading (`unquote`)
also accepts an escaped slash and a UTF-16 unit of four hexadecimal digits for any
character; a character beyond the first plane needs two units, a high surrogate followed
by a low one. -/

namespace StrategyDoc.Json

/-! ### Writing -/

/-- The hexadecimal digit of a number below sixteen. -/
def hexChar (n : Nat) : Char :=
  Char.ofNat (if n < 10 then '0'.toNat + n else 'a'.toNat + (n - 10))

/-- The written form of one character. -/
def escape (c : Char) : List Char :=
  if c = '"' then ['\\', '"']
  else if c = '\\' then ['\\', '\\']
  else if c = '\n' then ['\\', 'n']
  else if c = '\r' then ['\\', 'r']
  else if c = '\t' then ['\\', 't']
  else if c = '\x08' then ['\\', 'b']
  else if c = '\x0c' then ['\\', 'f']
  else if c < ' ' then ['\\', 'u', '0', '0', hexChar (c.toNat / 16), hexChar (c.toNat % 16)]
  else [c]

/-- The written form of a string. -/
def quote (s : String) : List Char := '"' :: (s.toList.flatMap escape ++ ['"'])

/-! ### Reading -/

/-- The value of a hexadecimal digit of either case. -/
def hexValue? (c : Char) : Option Nat :=
  if '0' ≤ c ∧ c ≤ '9' then some (c.toNat - '0'.toNat)
  else if 'a' ≤ c ∧ c ≤ 'f' then some (c.toNat - 'a'.toNat + 10)
  else if 'A' ≤ c ∧ c ≤ 'F' then some (c.toNat - 'A'.toNat + 10)
  else none

theorem hexValue?_hexChar : ∀ n < 16, hexValue? (hexChar n) = some n := by decide

/-- The unit of four hexadecimal digits. -/
def hexUnit? (a b c d : Char) : Option Nat := do
  let a ← hexValue? a
  let b ← hexValue? b
  let c ← hexValue? c
  let d ← hexValue? d
  return a * 4096 + b * 256 + c * 16 + d

/-- Read a unit.  It takes four bytes: a text with fewer ends here, and four bytes that
are no unit are skipped before the fault. -/
def readUnit (text : List Char) : Except Fault (Nat × List Char) :=
  if byteSize (text.take 4) < 4 then .error (.atEnd .endInString)
  else
    match text with
    | a :: b :: c :: d :: rest =>
      match hexUnit? a b c d with
      | some unit => .ok (unit, rest)
      | none => .error (.behind .invalidEscape 4 text)
    | _ => .error (.behind .invalidEscape 4 text)

/-- The first unit of a pair, and the second. -/
def isHighSurrogate (unit : Nat) : Bool := 0xD800 ≤ unit && unit ≤ 0xDBFF

def isLowSurrogate (unit : Nat) : Bool := 0xDC00 ≤ unit && unit ≤ 0xDFFF

/-- The character of a pair of surrogates. -/
def pairChar (high low : Nat) : Char :=
  Char.ofNat (0x10000 + (high - 0xD800) * 0x400 + (low - 0xDC00))

/-- Read one character of an escaped string, take what follows `\u`. -/
def readUnicode (text : List Char) : Except Fault (Char × List Char) := do
  let (unit, rest) ← readUnit text
  if isLowSurrogate unit then .error (.before .loneSurrogate rest)
  else if isHighSurrogate unit then
    match rest with
    | [] => .error (.atEnd .endInString)
    | '\\' :: [] => .error (.atEnd .endInString)
    | '\\' :: 'u' :: more =>
      let (low, rest) ← readUnit more
      if isLowSurrogate low then .ok (pairChar unit low, rest)
      else .error (.before .loneSurrogate rest)
    | '\\' :: other :: more => .error (.at .unpairedSurrogate (other :: more))
    | other => .error (.at .unpairedSurrogate other)
  else .ok (Char.ofNat unit, rest)

/-- The character of a letter after a backslash. -/
def escapedChar? : Char → Option Char
  | '"' => some '"'
  | '\\' => some '\\'
  | '/' => some '/'
  | 'b' => some '\x08'
  | 'f' => some '\x0c'
  | 'n' => some '\n'
  | 'r' => some '\r'
  | 't' => some '\t'
  | _ => none

/-- Read what follows a backslash. -/
def readEscape : List Char → Except Fault (Char × List Char)
  | [] => .error (.atEnd .endInString)
  | 'u' :: rest => readUnicode rest
  | c :: rest =>
    match escapedChar? c with
    | some decoded => .ok (decoded, rest)
    | none => .error (.at .invalidEscape (c :: rest))

/-- Read characters up to the closing quote; every step takes at least one character, so
as many steps as there are characters are enough. -/
def readChars : (steps : Nat) → List Char → Except Fault (List Char × List Char)
  | _, [] => .error (.atEnd .endInString)
  | 0, _ :: _ => .error (.atEnd .endInString)
  | steps + 1, c :: rest =>
    if c = '"' then .ok ([], rest)
    else if c = '\\' then do
      let (first, rest) ← readEscape rest
      let (others, rest) ← readChars steps rest
      return (first :: others, rest)
    else if c < ' ' then .error (.at .controlCharacter (c :: rest))
    else do
      let (others, rest) ← readChars steps rest
      return (c :: others, rest)

/-- Read a string whose opening quote has been taken. -/
def unquote (text : List Char) : Except Fault (String × List Char) := do
  let (chars, rest) ← readChars text.length text
  return (String.ofList chars, rest)

end StrategyDoc.Json
