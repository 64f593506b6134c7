import StrategyDoc.Strategy.Basic

/-! # Instruments

A call that carries an instrument refers to something traded: its name, its ticker symbol
and its class.  `Strategy.instruments` lists those of a strategy, each where it occurs
first. -/

namespace StrategyDoc

/-- What sort of thing is traded. -/
inductive Instrument.Class where
  | equity
  | options
  | futures
deriving DecidableEq, Repr

/-- The written name of a class. -/
def Instrument.Class.name : Instrument.Class → String
  | .equity => "equity"
  | .options => "options"
  | .futures => "futures"

/-- The class of a written name. -/
def Instrument.Class.ofName? : String → Option Instrument.Class
  | "equity" => some .equity
  | "options" => some .options
  | "futures" => some .futures
  | _ => none

/-- Something traded. -/
structure Instrument where
  name : String
  ticker : String
  assetClass : Instrument.Class
deriving DecidableEq, Repr

namespace Instrument

/-- The instrument in words. -/
def text (i : Instrument) : String := i.ticker ++ " (" ++ i.assetClass.name ++ ")"

/-- The instrument of the fields of a nested object. -/
def ofFields? (fields : List (String × FieldValue)) : Option Instrument := do
  let name ← (← FieldValue.find? "name" fields).string?
  let ticker ← (← FieldValue.find? "ticker" fields).string?
  let written ← (← FieldValue.find? "type" fields).string?
  return ⟨name, ticker, ← Class.ofName? written⟩

/-- The instrument among the fields of a call. -/
def ofCall? (fields : List (String × FieldValue)) : Option Instrument :=
  match FieldValue.find? "instrument" fields with
  | some (.shape inner) => ofFields? inner
  | _ => none

end Instrument

/-- The instrument that a call carries. -/
def Expression.instrument? : Expression → Option Instrument
  | .call _ fields => Instrument.ofCall? fields
  | _ => none

mutual

/-- The instruments of all calls in an expression, in order and with repetitions. -/
def Expression.carried : Expression → List Instrument
  | .number _ => []
  | .call _ fields => (Instrument.ofCall? fields).toList ++ FieldValue.carriedByFields fields
  | .conditional condition thenBranch none =>
    condition.carried ++ Expression.carriedByAll thenBranch
  | .conditional condition thenBranch (some elseBranch) =>
    condition.carried ++ Expression.carriedByAll thenBranch
      ++ Expression.carriedByAll elseBranch

def Expression.carriedByAll : List Expression → List Instrument
  | [] => []
  | e :: rest => e.carried ++ Expression.carriedByAll rest

/-- The instruments of the expressions in a field. -/
def FieldValue.carried : FieldValue → List Instrument
  | .expression e => e.carried
  | .sequence items => Expression.carriedByAll items
  | .choice _ => []
  | .text _ => []
  | .shape _ => []

def FieldValue.carriedByFields : List (String × FieldValue) → List Instrument
  | [] => []
  | (_, value) :: rest => value.carried ++ FieldValue.carriedByFields rest

end

/-- The different instruments of a strategy, in the order of their first occurrence. -/
def Strategy.instruments (s : Strategy) : List Instrument :=
  s.root.toExpression.carried.eraseDups

end StrategyDoc
