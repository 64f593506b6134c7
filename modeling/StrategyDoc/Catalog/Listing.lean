import StrategyDoc.Catalog.Functions
import StrategyDoc.Failure

/-! # Listing the catalog

The catalog is listed in groups, each under a heading and set apart by an empty line. -/

namespace StrategyDoc.Catalog

/-- The listing of contracts that follow one of the given group, if there is one. -/
def listAfter : Option Group → List Contract → String
  | _, [] => ""
  | before, contract :: rest =>
    let gap := if before.isSome then "\n" else ""
    let heading :=
      if before = some contract.group then "" else gap ++ "# " ++ contract.group.label ++ "\n"
    heading ++ contract.describe ++ listAfter (some contract.group) rest

/-- The listing of the whole catalog. -/
def listing : String := listAfter none all

/-- The description of a conditional. -/
def conditionalDescription : String :=
  conditionalWord ++ " (conditional)\n"
    ++ "  if: expression\n"
    ++ "  then: [expression, ...]\n"
    ++ "  else: optional [expression, ...]\n"

/-- The description of a function or of a conditional. -/
def describe (name : String) : Except Failure String :=
  if name = conditionalWord then .ok conditionalDescription
  else
    match find? name with
    | some contract => .ok contract.describe
    | none => .error (.unknownFunction name)

end StrategyDoc.Catalog
