import StrategyDoc.Binary64.Scaling
import StrategyDoc.Json.Basic
import StrategyDoc.Json.Fault

/-! # Reading a number

Digits are collected into a significand of at most `maxSignificand` (`collect`).  From the
digit on that would exceed it the digits before the point count only for their places, and
those behind the point for nothing.  A text without point and exponent whose significand
is complete is an integer, if the integer is in range and not a negative zero; every other
number is the double obtained from the significand and the decimal exponent
(`Binary64.ofDecimal?`). -/

namespace StrategyDoc.Json

def isDigit (c : Char) : Bool := '0' ≤ c && c ≤ '9'

def digitValue (c : Char) : Nat := c.toNat - '0'.toNat

/-- The largest significand, `2 ^ 64 - 1`. -/
def maxSignificand : Nat := 0xffffffffffffffff

/-- The largest exponent that is read, `2 ^ 31 - 1`. -/
def maxExponent : Nat := 0x7fffffff

/-- Extend a number digit by digit while it does not exceed the bound; also the digits
that are left. -/
def collect (bound : Nat) : (value : Nat) → (digits : List Char) → Nat × List Char
  | value, [] => (value, [])
  | value, d :: rest =>
    let next := value * 10 + digitValue d
    if next ≤ bound then collect bound next rest else (value, d :: rest)

/-- The digits at the head of a text, and the rest. -/
def spanDigits (text : List Char) : List Char × List Char :=
  (text.takeWhile isDigit, text.dropWhile isDigit)

/-- The double of a sign, a significand and an exponent; `rest` is what follows the
number. -/
def finishFloat (negative : Bool) (significand : Nat) (exponent : Int) (rest : List Char) :
    Except Fault (Number × List Char) :=
  match Binary64.ofDecimal? significand exponent with
  | some x => .ok (.float (if negative then -x else x), rest)
  | none => .error (.before .numberOutOfRange rest)

/-- Read the digits of an exponent.  One that is too large makes the number zero if it is
negative or nothing is scaled, and otherwise a fault at the digit that exceeds. -/
def finishExponentDigits (negative : Bool) (significand : Nat) (exponent : Int)
    (down : Bool) (text : List Char) : Except Fault (Number × List Char) :=
  let (digits, rest) := spanDigits text
  match digits, rest with
  | [], [] => .error (.atEnd .endInValue)
  | [], rest => .error (.at .invalidNumber rest)
  | digits, rest =>
    match collect maxExponent 0 digits with
    | (value, []) =>
      finishFloat negative significand (if down then exponent - value else exponent + value) rest
    | (_, _ :: uncounted) =>
      if significand ≠ 0 ∧ ¬ down then .error (.before .numberOutOfRange (uncounted ++ rest))
      else .ok (.float (.zero negative), rest)

/-- Read what follows the letter of an exponent. -/
def finishExponent (negative : Bool) (significand : Nat) (exponent : Int) :
    List Char → Except Fault (Number × List Char)
  | '+' :: rest => finishExponentDigits negative significand exponent false rest
  | '-' :: rest => finishExponentDigits negative significand exponent true rest
  | rest => finishExponentDigits negative significand exponent false rest

/-- Read an exponent if there is one. -/
def finishScaled (negative : Bool) (significand : Nat) (exponent : Int) :
    List Char → Except Fault (Number × List Char)
  | 'e' :: rest => finishExponent negative significand exponent rest
  | 'E' :: rest => finishExponent negative significand exponent rest
  | rest => finishFloat negative significand exponent rest

/-- Read what follows a decimal point. -/
def finishFraction (negative : Bool) (significand : Nat) (exponent : Int) (text : List Char) :
    Except Fault (Number × List Char) :=
  let (digits, rest) := spanDigits text
  match digits, rest with
  | [], [] => .error (.atEnd .endInValue)
  | [], rest => .error (.at .invalidNumber rest)
  | digits, rest =>
    let (significand, dropped) := collect maxSignificand significand digits
    finishScaled negative significand (exponent - (digits.length - dropped.length : Nat)) rest

/-- The number of a complete significand without point and exponent. -/
def finishInteger (negative : Bool) (significand : Nat) : Number :=
  if negative then
    if significand = 0 ∨ (significand : Int) > -Number.minInteger then
      .float (-(Binary64.ofNat? significand).getD (.zero false))
    else .integer (-significand)
  else .integer significand

/-- Read a number whose digits before the point have been collected. -/
def finishNumber (negative : Bool) (significand : Nat) (dropped : List Char) :
    List Char → Except Fault (Number × List Char)
  | '.' :: rest => finishFraction negative significand dropped.length rest
  | rest@('e' :: _) => finishScaled negative significand dropped.length rest
  | rest@('E' :: _) => finishScaled negative significand dropped.length rest
  | rest =>
    if dropped.isEmpty then .ok (finishInteger negative significand, rest)
    else finishFloat negative significand dropped.length rest

/-- Read a number whose sign has been taken. -/
def readNumber (negative : Bool) (text : List Char) : Except Fault (Number × List Char) :=
  match text with
  | [] => .error (.atEnd .endInValue)
  | '0' :: rest =>
    match rest with
    | [] => finishNumber negative 0 [] []
    | next :: more =>
      if isDigit next then .error (.at .invalidNumber (next :: more))
      else finishNumber negative 0 [] (next :: more)
  | text =>
    let (digits, rest) := spanDigits text
    if digits.isEmpty then .error (.at .invalidNumber rest)
    else
      let (significand, dropped) := collect maxSignificand 0 digits
      finishNumber negative significand dropped rest

end StrategyDoc.Json
