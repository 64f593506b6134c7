import StrategyDoc.Strategy.Encoding
import StrategyDoc.Validation.Visit

/-! # Verdicts

The verdict on a document is its strategy or the list of everything wrong with it. -/

namespace StrategyDoc

/-- What a check of a document came to. -/
inductive Verdict where
  | valid (strategy : Strategy)
  | invalid (errors : List Diagnostic)

namespace Verdict

/-- The verdict of a check. -/
def ofResult : Except (List Diagnostic) Strategy → Verdict
  | .ok strategy => valid strategy
  | .error errors => invalid errors

/-- The verdict on a document. -/
def ofDocument (policy : Policy) (document : Json) : Verdict :=
  ofResult (Strategy.ofJson? policy document)

def isValid : Verdict → Bool
  | valid _ => true
  | invalid _ => false

theorem isValid_ofDocument_iff (policy : Policy) (document : Json) :
    (ofDocument policy document).isValid = true ↔
      ∃ strategy, Strategy.ofJson? policy document = .ok strategy := by
  unfold ofDocument
  cases Strategy.ofJson? policy document with
  | ok strategy => exact ⟨fun _ => ⟨strategy, rfl⟩, fun _ => rfl⟩
  | error errors => exact ⟨nofun, nofun⟩

/-- The diagnostics, of which a valid document has none. -/
def errors : Verdict → List Diagnostic
  | valid _ => []
  | invalid errors => errors

/-- The members of a verdict in JSON. -/
def members : Verdict → List (String × Json)
  | valid strategy => [("ok", .bool true), ("value", strategy.toJson)]
  | invalid errors => [("ok", .bool false), ("errors", Diagnostic.listToJson errors)]

/-- The verdict as a JSON object. -/
def toJson (verdict : Verdict) : Json := .object verdict.members

end Verdict

end StrategyDoc
