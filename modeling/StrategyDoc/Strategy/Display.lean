import StrategyDoc.Json.Number
import StrategyDoc.Strategy.Basic
import StrategyDoc.Text.Display

/-! # Strategies on one line

An expression is displayed as a formula.  A call whose only field is a list of arguments
shows the arguments alone; any other call shows its fields with their names.  Texts are
quoted, choices are not. -/

namespace StrategyDoc

mutual

/-- The formula of an expression. -/
def Expression.text : Expression → String
  | .number n => String.ofList n.text
  | .call function [("args", .sequence items)] =>
    function ++ "(" ++ ", ".intercalate (Expression.texts items) ++ ")"
  | .call function fields =>
    function ++ "(" ++ ", ".intercalate (FieldValue.namedTexts fields) ++ ")"
  | .conditional condition thenBranch none =>
    "IF " ++ condition.text ++ " THEN [" ++ ", ".intercalate (Expression.texts thenBranch) ++ "]"
  | .conditional condition thenBranch (some elseBranch) =>
    "IF " ++ condition.text ++ " THEN [" ++ ", ".intercalate (Expression.texts thenBranch)
      ++ "] ELSE [" ++ ", ".intercalate (Expression.texts elseBranch) ++ "]"

/-- The formulas of some expressions. -/
def Expression.texts : List Expression → List String
  | [] => []
  | e :: rest => e.text :: Expression.texts rest

/-- The display of a field value. -/
def FieldValue.display : FieldValue → String
  | .expression e => e.text
  | .sequence items => "[" ++ ", ".intercalate (Expression.texts items) ++ "]"
  | .choice s => s
  | .text s => Text.display s
  | .shape fields => "\x7b" ++ ", ".intercalate (FieldValue.namedTexts fields) ++ "\x7d"

/-- The displays of some fields with their names. -/
def FieldValue.namedTexts : List (String × FieldValue) → List String
  | [] => []
  | (name, value) :: rest => (name ++ "=" ++ value.display) :: FieldValue.namedTexts rest

end

/-- The formula of a conditional. -/
def Conditional.text (c : Conditional) : String := c.toExpression.text

end StrategyDoc
