/-! # Unsigned numbers in decimal

A number is written in decimal digits, perhaps after a plus sign, and must fit into 64
bits.  It is read digit by digit, so the first digit that cannot be taken decides what is
wrong. -/

namespace StrategyDoc.Text

/-- What is wrong with a number. -/
inductive NumberFault where
  | empty
  | invalidDigit
  | tooLarge
deriving DecidableEq, Repr

/-- The wording of a fault. -/
def NumberFault.message : NumberFault → String
  | .empty => "cannot parse integer from empty string"
  | .invalidDigit => "invalid digit found in string"
  | .tooLarge => "number too large to fit in target type"

/-- The largest number, `2 ^ 64 - 1`. -/
def maxUnsigned : Nat := 0xffffffffffffffff

/-- Read the digits that follow those of `value`. -/
def readDigits : (value : Nat) → List Char → Except NumberFault Nat
  | value, [] => .ok value
  | value, c :: rest =>
    if c.isDigit then
      let next := value * 10 + (c.toNat - '0'.toNat)
      if next ≤ maxUnsigned then readDigits next rest else .error .tooLarge
    else .error .invalidDigit

/-- Read a whole text as a number. -/
def readUnsigned : List Char → Except NumberFault Nat
  | [] => .error .empty
  | '+' :: [] => .error .invalidDigit
  | '+' :: rest => readDigits 0 rest
  | text => readDigits 0 text

end StrategyDoc.Text
