import StrategyDoc.Catalog.Basic
import StrategyDoc.Json.Basic

/-! # Strategies

A strategy has a name, an author and a conditional at its root.  An expression is a number,
a call of a function with named field values, or a conditional with one or two branches of
actions. -/

namespace StrategyDoc

mutual

/-- A node of a strategy. -/
inductive Expression where
  /-- A number as it was written. -/
  | number (value : Json.Number)
  /-- A call with its present fields in the order of the contract. -/
  | call (function : String) (fields : List (String × FieldValue))
  /-- A condition, the actions if it holds, and perhaps the actions if it does not. -/
  | conditional (condition : Expression) (thenBranch : List Expression)
      (elseBranch : Option (List Expression))

/-- What stands in a field of a call. -/
inductive FieldValue where
  | expression (value : Expression)
  | sequence (items : List Expression)
  /-- One of the strings that the field allows. -/
  | choice (value : String)
  | text (value : String)
  /-- The fields of a nested object. -/
  | shape (fields : List (String × FieldValue))

end

/-- A condition with its branches. -/
structure Conditional where
  condition : Expression
  thenBranch : List Expression
  elseBranch : Option (List Expression)

/-- A conditional is an expression. -/
def Conditional.toExpression (c : Conditional) : Expression :=
  .conditional c.condition c.thenBranch c.elseBranch

/-- A strategy document. -/
structure Strategy where
  name : String
  author : String
  root : Conditional

/-! ### Parts of a field value -/

namespace FieldValue

/-- The value of a named field, the first if the name is repeated. -/
def find? (name : String) : List (String × FieldValue) → Option FieldValue
  | [] => none
  | (key, value) :: rest => if key = name then some value else find? name rest

/-- The string of a choice or a text. -/
def string? : FieldValue → Option String
  | choice s => some s
  | text s => some s
  | _ => none

/-- The expression of an expression field. -/
def expression? : FieldValue → Option Expression
  | expression e => some e
  | _ => none

/-- The items of a sequence. -/
def sequence? : FieldValue → Option (List Expression)
  | sequence items => some items
  | _ => none

end FieldValue

/-! ### Parts of an expression -/

namespace Expression

/-- The function that a node names; a conditional has the word of its own. -/
def function? : Expression → Option String
  | number _ => none
  | call function _ => some function
  | conditional .. => some conditionalWord

/-- The double of a number. -/
def toBinary64? : Expression → Option Binary64
  | number n => n.toBinary64?
  | _ => none

/-- A field of a call. -/
def field? (e : Expression) (name : String) : Option FieldValue :=
  match e with
  | call _ fields => FieldValue.find? name fields
  | _ => none

/-- The arguments of a call that takes a list of them. -/
def arguments? (e : Expression) : Option (List Expression) :=
  (e.field? "args").bind (·.sequence?)

end Expression

/-! ### Nesting depth -/

mutual

/-- The number of levels of an expression, itself included. -/
def Expression.depth : Expression → Nat
  | .number _ => 1
  | .call _ fields => 1 + FieldValue.depthOfFields fields
  | .conditional condition thenBranch none =>
    1 + max condition.depth (Expression.depthOfAll thenBranch)
  | .conditional condition thenBranch (some elseBranch) =>
    1 + max condition.depth
      (max (Expression.depthOfAll thenBranch) (Expression.depthOfAll elseBranch))

/-- The depth of the deepest of some expressions, or zero. -/
def Expression.depthOfAll : List Expression → Nat
  | [] => 0
  | e :: rest => max e.depth (Expression.depthOfAll rest)

/-- The levels below a field. -/
def FieldValue.depth : FieldValue → Nat
  | .expression e => e.depth
  | .sequence items => Expression.depthOfAll items
  | .shape fields => FieldValue.depthOfFields fields
  | .choice _ => 0
  | .text _ => 0

/-- The levels below some fields. -/
def FieldValue.depthOfFields : List (String × FieldValue) → Nat
  | [] => 0
  | (_, value) :: rest => max value.depth (FieldValue.depthOfFields rest)

end

/-- The number of levels of a conditional, itself included. -/
def Conditional.depth (c : Conditional) : Nat := c.toExpression.depth

end StrategyDoc
