import StrategyDoc.Files.Disk
import StrategyDoc.Verdict

/-! # Batches

A batch is the result of checking the documents at some locations.  Each document has a
verdict or a failure, and so has each location that could not be explored.  Batches are
joined part by part, in order. -/

namespace StrategyDoc

/-- The results for some locations. -/
structure Batch where
  /-- The verdicts on the documents that were read. -/
  outcomes : List (String × Verdict)
  /-- What could not be read. -/
  failures : List (String × Failure)

namespace Batch

def empty : Batch := ⟨[], []⟩

/-- One batch after another. -/
def append (a b : Batch) : Batch := ⟨a.outcomes ++ b.outcomes, a.failures ++ b.failures⟩

instance : Append Batch := ⟨append⟩

@[simp] theorem outcomes_append (a b : Batch) : (a ++ b).outcomes = a.outcomes ++ b.outcomes := rfl

@[simp] theorem failures_append (a b : Batch) : (a ++ b).failures = a.failures ++ b.failures := rfl

theorem append_assoc (a b c : Batch) : a ++ b ++ c = a ++ (b ++ c) := by
  show append (append a b) c = append a (append b c)
  unfold append
  rw [List.append_assoc, List.append_assoc]

/-- Some batches, one after the other. -/
def join (batches : List Batch) : Batch := batches.foldr append empty

theorem join_append (as bs : List Batch) : join (as ++ bs) = join as ++ join bs := by
  induction as with
  | nil => rfl
  | cons a rest ih =>
    show a ++ join (rest ++ bs) = a ++ join rest ++ join bs
    rw [ih, append_assoc]

/-! ### Checking -/

variable (source : DocumentSource) (policy : Policy)

/-- Check the document at a location. -/
def ofDocument (location : String) : Batch :=
  match source.load location with
  | .ok document => ⟨[(location, .ofDocument policy document)], []⟩
  | .error failure => ⟨[], [(location, failure)]⟩

/-- Check the documents discovered at a location. -/
def ofLocation (location : String) : Batch :=
  match source.discover location with
  | .ok found => join (found.map (ofDocument source policy))
  | .error failure => ⟨[], [(location, failure)]⟩

/-- Check the documents at some locations. -/
def ofLocations (locations : List String) : Batch :=
  join (locations.map (ofLocation source policy))

theorem ofLocations_append (first second : List String) :
    ofLocations source policy (first ++ second)
      = ofLocations source policy first ++ ofLocations source policy second := by
  unfold ofLocations
  rw [List.map_append, join_append]

/-! ### Results -/

def validCount (batch : Batch) : Nat := batch.outcomes.countP (·.2.isValid)

def invalidCount (batch : Batch) : Nat := batch.outcomes.length - batch.validCount

/-- The status of a program that ends with a batch: the highest of the failures' statuses
and of the status of a rejected document, if there is one. -/
def exitStatus (batch : Batch) : Nat :=
  let failed := (batch.failures.map (·.2.exitStatus)).foldr max 0
  let rejected := if 0 < batch.invalidCount then (Failure.rejectedDocument []).exitStatus else 0
  max failed rejected

end Batch

end StrategyDoc
