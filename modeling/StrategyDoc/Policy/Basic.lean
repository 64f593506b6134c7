/-! # Policies

A policy says how strictly documents are checked. -/

namespace StrategyDoc

/-- How strictly documents are checked. -/
structure Policy where
  /-- Members that a contract does not declare are defects. -/
  strict : Bool
  /-- The deepest nesting of expressions that is accepted. -/
  maxDepth : Nat
  /-- A branch may have no actions. -/
  allowEmptyBranches : Bool
deriving DecidableEq, Repr

namespace Policy

/-- The policy in the absence of any settings. -/
def default : Policy := ⟨false, 128, true⟩

instance : Inhabited Policy := ⟨default⟩

/-- The default policy, but strict. -/
def strictDefault : Policy := { default with strict := true }

def withMaxDepth (policy : Policy) (maxDepth : Nat) : Policy :=
  { policy with maxDepth := maxDepth }

def withEmptyBranches (policy : Policy) (allowed : Bool) : Policy :=
  { policy with allowEmptyBranches := allowed }

end Policy

end StrategyDoc
