import StrategyDoc.Catalog.Kind

/-! # Contracts

A contract is the description of one function of the strategy language: its name, the group
it is listed under, and its fields in order. -/

namespace StrategyDoc

/-- The word that marks a conditional, which is no function of the catalog. -/
def conditionalWord : String := "ifthen"

/-- The groups of the catalog. -/
inductive Group where
  | userData
  | marketData
  | orders
  | arithmetic
  | logic
  | comparison
  | variables
  | movingAverage
  | trendStrength
  | momentum
  | volatility
  | volume
  | marketStructure
  | misc
deriving DecidableEq, Repr

/-- The heading of a group. -/
def Group.label : Group → String
  | .userData => "user data"
  | .marketData => "market data"
  | .orders => "orders"
  | .arithmetic => "arithmetic"
  | .logic => "logic"
  | .comparison => "comparison"
  | .variables => "variables"
  | .movingAverage => "moving average"
  | .trendStrength => "trend strength"
  | .momentum => "momentum"
  | .volatility => "volatility"
  | .volume => "volume"
  | .marketStructure => "market structure"
  | .misc => "misc"

/-- The contract of a function. -/
structure Contract where
  name : String
  group : Group
  fields : List FieldSpec

namespace Contract

/-- The kind of a field. -/
def field? (contract : Contract) (name : String) : Option FieldKind :=
  (contract.fields.find? (·.1 == name)).map (·.2)

/-- The names of all fields, in order. -/
def fieldNames (contract : Contract) : List String := contract.fields.map (·.1)

/-- The names of the fields that must be present, in order. -/
def requiredNames (contract : Contract) : List String :=
  (contract.fields.filter (·.2.isRequired)).map (·.1)

/-- The contract in words: a line with name and group, then a line for each field. -/
def describe (contract : Contract) : String :=
  contract.name ++ " (" ++ contract.group.label ++ ")\n"
    ++ String.join ((FieldKind.describeFields contract.fields).map fun line => "  " ++ line ++ "\n")

end Contract

end StrategyDoc
