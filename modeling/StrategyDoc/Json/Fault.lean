/-! # Faults of a JSON text

Reading a text stops at the first fault.  A fault is kept as its cause and the number of
bytes of UTF-8 text that lie behind its place (`unread`), which a reader knows from the
rest of the text alone; the line and column follow once the whole text is known
(`Location.ofFault`).  Columns count bytes. -/

namespace StrategyDoc.Json

/-- What is wrong with a text. -/
inductive Malformed where
  | endInValue
  | endInList
  | endInObject
  | endInString
  | expectedWord
  | expectedValue
  | expectedListEnd
  | expectedObjectEnd
  | expectedColon
  | nameNotString
  | trailingComma
  | trailingCharacters
  | invalidNumber
  | numberOutOfRange
  | controlCharacter
  | invalidEscape
  | loneSurrogate
  | unpairedSurrogate
deriving DecidableEq, Repr

/-- The wording of a cause. -/
def Malformed.message : Malformed → String
  | .endInValue => "EOF while parsing a value"
  | .endInList => "EOF while parsing a list"
  | .endInObject => "EOF while parsing an object"
  | .endInString => "EOF while parsing a string"
  | .expectedWord => "expected ident"
  | .expectedValue => "expected value"
  | .expectedListEnd => "expected `,` or `]`"
  | .expectedObjectEnd => "expected `,` or `\x7d`"
  | .expectedColon => "expected `:`"
  | .nameNotString => "key must be a string"
  | .trailingComma => "trailing comma"
  | .trailingCharacters => "trailing characters"
  | .invalidNumber => "invalid number"
  | .numberOutOfRange => "number out of range"
  | .controlCharacter => "control character (\\u0000-\\u001F) found while parsing a string"
  | .invalidEscape => "invalid escape"
  | .loneSurrogate => "lone leading surrogate in hex escape"
  | .unpairedSurrogate => "unexpected end of hex escape"

/-- A cause and its distance from the end of the text, in bytes. -/
structure Fault where
  cause : Malformed
  unread : Nat
deriving DecidableEq, Repr

/-- The bytes of a text. -/
def byteSize (text : List Char) : Nat := text.foldr (fun c bytes => c.utf8Size + bytes) 0

/-- A fault just before the rest of the text. -/
def Fault.before (cause : Malformed) (rest : List Char) : Fault := ⟨cause, byteSize rest⟩

/-- A fault at the first byte of the rest of the text, or at its end. -/
def Fault.at (cause : Malformed) (rest : List Char) : Fault := ⟨cause, byteSize rest - 1⟩

/-- A fault behind the given number of bytes of the rest of the text, or at its end. -/
def Fault.behind (cause : Malformed) (bytes : Nat) (rest : List Char) : Fault :=
  ⟨cause, byteSize rest - bytes⟩

/-- A fault at the end of the text. -/
def Fault.atEnd (cause : Malformed) : Fault := ⟨cause, 0⟩

/-! ### Places -/

/-- A line, counted from one, and the bytes read of it. -/
structure Location where
  line : Nat
  column : Nat
deriving DecidableEq, Repr

/-- Move over the first `bytes` bytes of a text. -/
def Location.advance (place : Location) : (bytes : Nat) → (text : List Char) → Location
  | _, [] => place
  | bytes, c :: rest =>
    if bytes = 0 then place
    else if bytes < c.utf8Size then { place with column := place.column + bytes }
    else if c = '\n' then advance ⟨place.line + 1, 0⟩ (bytes - c.utf8Size) rest
    else advance ⟨place.line, place.column + c.utf8Size⟩ (bytes - c.utf8Size) rest

/-- The place of a fault in the text. -/
def Location.ofFault (text : List Char) (fault : Fault) : Location :=
  Location.advance ⟨1, 0⟩ (byteSize text - fault.unread) text

/-- The wording of a fault with its place. -/
def Fault.message (text : List Char) (fault : Fault) : String :=
  let place := Location.ofFault text fault
  s!"{fault.cause.message} at line {place.line} column {place.column}"

end StrategyDoc.Json
