import StrategyDoc.Strategy.Basic

/-! # Strategies as JSON

A strategy is written in the form of the documents it is read from.  The marker comes
first, then the fields in their order; an absent branch or field is left out. -/

namespace StrategyDoc

mutual

/-- The JSON value of an expression. -/
def Expression.toJson : Expression → Json
  | .number n => .number n
  | .call function fields =>
    .object (("function", .string function) :: FieldValue.membersOf fields)
  | .conditional condition thenBranch none =>
    .object [
      ("function", .string conditionalWord),
      ("if", condition.toJson),
      ("then", .array (Expression.itemsOf thenBranch))]
  | .conditional condition thenBranch (some elseBranch) =>
    .object [
      ("function", .string conditionalWord),
      ("if", condition.toJson),
      ("then", .array (Expression.itemsOf thenBranch)),
      ("else", .array (Expression.itemsOf elseBranch))]

/-- The JSON values of some expressions. -/
def Expression.itemsOf : List Expression → List Json
  | [] => []
  | e :: rest => e.toJson :: Expression.itemsOf rest

/-- The JSON value of a field value. -/
def FieldValue.toJson : FieldValue → Json
  | .expression e => e.toJson
  | .sequence items => .array (Expression.itemsOf items)
  | .choice s => .string s
  | .text s => .string s
  | .shape fields => .object (FieldValue.membersOf fields)

/-- The members of some fields. -/
def FieldValue.membersOf : List (String × FieldValue) → List (String × Json)
  | [] => []
  | (name, value) :: rest => (name, value.toJson) :: FieldValue.membersOf rest

end

/-- The JSON value of a conditional. -/
def Conditional.toJson (c : Conditional) : Json := c.toExpression.toJson

/-- The JSON value of a strategy. -/
def Strategy.toJson (s : Strategy) : Json :=
  .object [
    ("name", .string s.name),
    ("author", .string s.author),
    ("strategy", s.root.toJson)]

end StrategyDoc
