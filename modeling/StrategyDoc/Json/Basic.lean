import StrategyDoc.Binary64.Basic

/-! # JSON values

A document is a JSON value.  A number is an integer or a double.  The members of an object
form a list of names and values. -/

namespace StrategyDoc

namespace Json

/-- A number keeps the distinction between an integer and a double as written. -/
inductive Number where
  | integer (value : Int)
  | float (value : Binary64)
deriving DecidableEq

/-- The least integer that a number text can denote, `-2 ^ 63`. -/
def Number.minInteger : Int := -0x8000000000000000

/-- The greatest integer that a number text can denote, `2 ^ 64 - 1`. -/
def Number.maxInteger : Int := 0xffffffffffffffff

/-- The number as a double; an integer in range is rounded. -/
def Number.toBinary64? : Number → Option Binary64
  | .integer value =>
    (Binary64.ofNat? value.natAbs).map fun x => if value < 0 then -x else x
  | .float value => some value

end Json

/-- A JSON value. -/
inductive Json where
  | null
  | bool (value : Bool)
  | number (value : Json.Number)
  | string (value : String)
  | array (items : List Json)
  | object (members : List (String × Json))

end StrategyDoc
