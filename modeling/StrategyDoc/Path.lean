import StrategyDoc.Json.Members

/-! # Places in a document

A path leads from the root of a document to one of its values, by member names and by item
numbers.  It is printed with points before names and brackets around numbers, and the empty
path as `<root>`. -/

namespace StrategyDoc

/-- One step from a value to a part of it. -/
inductive Step where
  | field (name : String)
  | index (number : Nat)
deriving DecidableEq, Repr

/-- The steps from the root to a value. -/
abbrev Path := List Step

namespace Path

/-- The text of the steps behind the first. -/
def textAfter : Path → String
  | [] => ""
  | .field name :: rest => "." ++ name ++ textAfter rest
  | .index number :: rest => s!"[{number}]" ++ textAfter rest

/-- The text of a path. -/
def text : Path → String
  | [] => "<root>"
  | .field name :: rest => name ++ textAfter rest
  | .index number :: rest => textAfter (.index number :: rest)

/-- The path as a JSON array of names and numbers. -/
def toJson (path : Path) : Json :=
  .array (path.map fun
    | .field name => .string name
    | .index number => .number (.integer number))

end Path

namespace Json

/-- The value that a step leads to. -/
def step? : Json → Step → Option Json
  | .object members, .field name => member? name members
  | .array items, .index i => items[i]?
  | _, _ => none

/-- The value at a path. -/
def at? (value : Json) : Path → Option Json
  | [] => some value
  | step :: rest => (value.step? step).bind (·.at? rest)

@[simp] theorem at?_nil (value : Json) : value.at? [] = some value := rfl

theorem at?_cons (value : Json) (step : Step) (rest : Path) :
    value.at? (step :: rest) = (value.step? step).bind (·.at? rest) := rfl

theorem at?_append (value : Json) (before after : Path) :
    value.at? (before ++ after) = (value.at? before).bind (·.at? after) := by
  induction before generalizing value with
  | nil => rfl
  | cons step rest ih =>
    rw [List.cons_append, at?_cons, at?_cons]
    cases value.step? step with
    | none => rfl
    | some inner => exact ih inner

end Json

end StrategyDoc
