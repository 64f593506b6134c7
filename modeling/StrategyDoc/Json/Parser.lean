import StrategyDoc.Json.Members
import StrategyDoc.Json.Numeral
import StrategyDoc.Json.Quoted

/-! # Reading JSON

`Json.parse?` reads a whole text as one value.  Every object comes out sorted, and of
repeated names the last counts.  There is no limit on nesting: the readers below take a
number of steps only to be total, and `readValue` allows as many as the text can need. -/

namespace StrategyDoc.Json

/-- The characters that may stand between tokens. -/
def isBlank (c : Char) : Bool := c == ' ' || c == '\n' || c == '\t' || c == '\r'

def skipBlanks (text : List Char) : List Char := text.dropWhile isBlank

/-- Read the remaining letters of a word. -/
def readWord : (letters text : List Char) → Except Fault (List Char)
  | [], text => .ok text
  | _ :: _, [] => .error (.atEnd .endInValue)
  | letter :: letters, c :: rest =>
    if c = letter then readWord letters rest else .error (.at .expectedWord (c :: rest))

/-- Read the colon after a name. -/
def readColon (text : List Char) : Except Fault (List Char) :=
  match skipBlanks text with
  | [] => .error (.atEnd .endInObject)
  | ':' :: rest => .ok rest
  | rest => .error (.at .expectedColon rest)

mutual

/-- Read a value. -/
def readValueIn : (steps : Nat) → List Char → Except Fault (Json × List Char)
  | 0, _ => .error (.atEnd .endInValue)
  | steps + 1, text =>
    match skipBlanks text with
    | [] => .error (.atEnd .endInValue)
    | 'n' :: rest => do return (.null, ← readWord ['u', 'l', 'l'] rest)
    | 't' :: rest => do return (.bool true, ← readWord ['r', 'u', 'e'] rest)
    | 'f' :: rest => do return (.bool false, ← readWord ['a', 'l', 's', 'e'] rest)
    | '"' :: rest => do
      let (s, rest) ← unquote rest
      return (.string s, rest)
    | '[' :: rest => do
      let (items, rest) ← readItems steps rest
      return (.array items, rest)
    | '\x7b' :: rest => do
      let (entries, rest) ← readEntries steps rest
      return (.object (ofEntries entries), rest)
    | '-' :: rest => do
      let (n, rest) ← readNumber true rest
      return (.number n, rest)
    | c :: rest =>
      if isDigit c then do
        let (n, rest) ← readNumber false (c :: rest)
        return (.number n, rest)
      else .error (.at .expectedValue (c :: rest))

/-- Read the items of an array whose bracket has been taken. -/
def readItems : (steps : Nat) → List Char → Except Fault (List Json × List Char)
  | 0, _ => .error (.atEnd .endInList)
  | steps + 1, text =>
    match skipBlanks text with
    | [] => .error (.atEnd .endInList)
    | ']' :: rest => .ok ([], rest)
    | text => do
      let (item, rest) ← readValueIn steps text
      let (items, rest) ← readMoreItems steps rest
      return (item :: items, rest)

/-- Read the items that follow an item. -/
def readMoreItems : (steps : Nat) → List Char → Except Fault (List Json × List Char)
  | 0, _ => .error (.atEnd .endInList)
  | steps + 1, text =>
    match skipBlanks text with
    | [] => .error (.atEnd .endInList)
    | ']' :: rest => .ok ([], rest)
    | ',' :: rest =>
      match skipBlanks rest with
      | [] => .error (.atEnd .endInValue)
      | ']' :: rest => .error (.at .trailingComma (']' :: rest))
      | text => do
        let (item, rest) ← readValueIn steps text
        let (items, rest) ← readMoreItems steps rest
        return (item :: items, rest)
    | rest => .error (.at .expectedListEnd rest)

/-- Read the entries of an object whose brace has been taken. -/
def readEntries : (steps : Nat) → List Char →
    Except Fault (List (String × Json) × List Char)
  | 0, _ => .error (.atEnd .endInObject)
  | steps + 1, text =>
    match skipBlanks text with
    | [] => .error (.atEnd .endInObject)
    | '\x7d' :: rest => .ok ([], rest)
    | '"' :: rest => do
      let (name, rest) ← unquote rest
      let (value, rest) ← readValueIn steps (← readColon rest)
      let (entries, rest) ← readMoreEntries steps rest
      return ((name, value) :: entries, rest)
    | rest => .error (.at .nameNotString rest)

/-- Read the entries that follow an entry. -/
def readMoreEntries : (steps : Nat) → List Char →
    Except Fault (List (String × Json) × List Char)
  | 0, _ => .error (.atEnd .endInObject)
  | steps + 1, text =>
    match skipBlanks text with
    | [] => .error (.atEnd .endInObject)
    | '\x7d' :: rest => .ok ([], rest)
    | ',' :: rest =>
      match skipBlanks rest with
      | [] => .error (.atEnd .endInValue)
      | '"' :: rest => do
        let (name, rest) ← unquote rest
        let (value, rest) ← readValueIn steps (← readColon rest)
        let (entries, rest) ← readMoreEntries steps rest
        return ((name, value) :: entries, rest)
      | '\x7d' :: rest => .error (.at .trailingComma ('\x7d' :: rest))
      | rest => .error (.at .nameNotString rest)
    | rest => .error (.at .expectedObjectEnd rest)

end

/-- Read a value at the head of a text.  Two steps for each character are enough, since of
two steps in a row one takes a character. -/
def readValue (text : List Char) : Except Fault (Json × List Char) :=
  readValueIn (2 * text.length + 2) text

/-- Read a text that holds one value and nothing else but blanks. -/
def readDocument (text : List Char) : Except Fault Json := do
  let (value, rest) ← readValue text
  match skipBlanks rest with
  | [] => return value
  | rest => .error (.at .trailingCharacters rest)

/-- The value of a text, or the wording of the first fault. -/
def parse? (text : String) : Except String Json :=
  (readDocument text.toList).mapError (·.message text.toList)

end StrategyDoc.Json
