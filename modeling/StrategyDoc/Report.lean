import StrategyDoc.Json.Printer
import StrategyDoc.Strategy.Display
import StrategyDoc.Strategy.Instrument
import StrategyDoc.Verdict

/-! # Reports

A report presents the verdict on a document from a named source, for people or as JSON. -/

namespace StrategyDoc.Report

/-- The form of a report. -/
inductive Format where
  /-- Lines of text; `tree` adds the formula and the instruments of a valid strategy. -/
  | text (tree : Bool)
  /-- A JSON object; `pretty` lays it out over several lines. -/
  | json (pretty : Bool)
deriving DecidableEq, Repr

/-- The lines that present the tree of a strategy. -/
def treeLines (strategy : Strategy) : List String :=
  let formula := "      " ++ strategy.root.text
  match strategy.instruments with
  | [] => [formula]
  | found => [formula, "      instruments: " ++ ", ".intercalate (found.map (·.text))]

/-- The lines of a report for people. -/
def textLines (tree : Bool) (source : String) : Verdict → List String
  | .valid strategy =>
    s!"OK    {source}: '{strategy.name}' by {strategy.author}"
      :: if tree then treeLines strategy else []
  | .invalid errors =>
    s!"FAIL  {source}: {errors.length} error(s)" :: errors.map fun e => "      " ++ e.text

/-- The report for people; every line is ended. -/
def text (tree : Bool) (source : String) (verdict : Verdict) : String :=
  String.join ((textLines tree source verdict).map (· ++ "\n"))

/-- The report as a JSON value: the source, then the members of the verdict. -/
def toJson (source : String) (verdict : Verdict) : Json :=
  .object (("source", .string source) :: verdict.members)

/-- The report in a format. -/
def render : Format → (source : String) → Verdict → String
  | .text tree, source, verdict => text tree source verdict
  | .json false, source, verdict => (toJson source verdict).compact
  | .json true, source, verdict => (toJson source verdict).indented

/-- End a text with a line break if it has none at its end. -/
def endLine (s : String) : String := if s.toList.getLast? = some '\n' then s else s ++ "\n"

/-- The reports on several documents, one after the other. -/
def renderAll (format : Format) (outcomes : List (String × Verdict)) : String :=
  String.join (outcomes.map fun (source, verdict) => endLine (render format source verdict))

end StrategyDoc.Report
