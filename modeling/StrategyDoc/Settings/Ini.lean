import StrategyDoc.Text.Blank
import StrategyDoc.Text.Lower

/-! # INI texts

A text of settings consists of lines.  A line in brackets is a heading, any other line a
key with its value behind the first equals sign or colon.  Blanks around each part do not
count, nor does anything from a semicolon or a hash sign on, nor the case of headings and
keys.  A line without a separator is a key without a value.  Of two settings with one
heading and key the later one counts. -/

namespace StrategyDoc

/-- One key under a heading, with its value if it has one. -/
structure Setting where
  heading : String
  key : String
  value : Option String
deriving DecidableEq, Repr

/-- The settings of a text, in order. -/
structure Ini where
  settings : List Setting
deriving DecidableEq, Repr

namespace Ini

/-- The heading of the settings before the first heading. -/
def firstHeading : String := "default"

/-! ### Lines -/

/-- What a line says. -/
inductive Line where
  | nothing
  | heading (name : String)
  | setting (key : String) (value : Option String)
deriving DecidableEq, Repr

/-- What is wrong with a line. -/
inductive LineFault where
  | openHeading
  | emptyKey
deriving DecidableEq, Repr

/-- The wording of a fault in the line of a number, counted from one. -/
def LineFault.message (number : Nat) : LineFault → String
  | .openHeading =>
    s!"line {number}: Found opening bracket for section name but no closing bracket"
  | .emptyKey => s!"line {number}:0: Key cannot be empty"

/-- The start of a comment. -/
def isComment (c : Char) : Bool := c == ';' || c == '#'

/-- The end of a key. -/
def isSeparator (c : Char) : Bool := c == '=' || c == ':'

/-- The text before the last closing bracket. -/
def beforeLastBracket (text : List Char) : Option (List Char) :=
  match text.reverse.dropWhile (· != ']') with
  | [] => none
  | _ :: before => some before.reverse

/-- A name, for which neither case nor the blanks around it count. -/
def name (text : List Char) : String := String.ofList (Text.lower (Text.trim text))

/-- What a line without comment says. -/
def readContent (text : List Char) : Except LineFault Line :=
  match text with
  | [] => .ok .nothing
  | '[' :: rest =>
    match beforeLastBracket rest with
    | some inner => .ok (.heading (name inner))
    | none => .error .openHeading
  | text =>
    let key := name (text.takeWhile fun c => !isSeparator c)
    match text.dropWhile fun c => !isSeparator c with
    | [] => .ok (.setting key none)
    | _ :: value =>
      if key.isEmpty then .error .emptyKey
      else .ok (.setting key (some (String.ofList (Text.trim value))))

/-- What a line says. -/
def readLine (line : List Char) : Except LineFault Line :=
  readContent (Text.trim ((Text.trim line).takeWhile fun c => !isComment c))

/-! ### Whole texts -/

/-- Read lines, given the number of the first and the heading that it stands under. -/
def readLines : (number : Nat) → (heading : String) → List (List Char) →
    Except String (List Setting)
  | _, _, [] => .ok []
  | number, heading, line :: rest =>
    match readLine line with
    | .error fault => .error (fault.message number)
    | .ok .nothing => readLines (number + 1) heading rest
    | .ok (.heading next) => readLines (number + 1) next rest
    | .ok (.setting key value) =>
      (readLines (number + 1) heading rest).map (⟨heading, key, value⟩ :: ·)

/-- The settings of a text, or the wording of the first fault. -/
def read? (text : String) : Except String Ini :=
  (readLines 1 firstHeading (text.toList.splitOn '\n')).map Ini.mk

/-- The setting of a heading and key in any case. -/
def find? (ini : Ini) (heading key : String) : Option Setting :=
  let heading := String.ofList (Text.lower heading.toList)
  let key := String.ofList (Text.lower key.toList)
  ini.settings.reverse.find? fun s => s.heading == heading && s.key == key

/-- The value of a setting that is there and has one. -/
def value? (ini : Ini) (heading key : String) : Option String :=
  (ini.find? heading key).bind (·.value)

end Ini

end StrategyDoc
