import StrategyDoc.Failure
import StrategyDoc.Policy.Basic
import StrategyDoc.Settings.Basic

/-! # The policy in force

The policy comes from settings, if there are any, under the heading `validator`, and from
overrides given for one run.  A missing setting leaves the default.  An override replaces
the setting, except that strictness can only be added.  A nesting limit of zero is refused
wherever it comes from, even where an override would replace it. -/

namespace StrategyDoc.Policy

/-- Wishes for one run. -/
structure Overrides where
  strict : Bool
  maxDepth : Option Nat
  allowEmptyBranches : Option Bool
deriving DecidableEq, Repr

/-- No wishes at all. -/
def Overrides.none : Overrides := ⟨false, .none, .none⟩

/-! ### Settings -/

/-- The heading of the settings. -/
def heading : String := "validator"

/-- Read one setting; `reason` says why it cannot be used. -/
def setting {α : Type} (key : String) (value : Except String α) : Except Failure α :=
  value.mapError (Failure.invalidSetting heading key)

/-- A nesting limit from the settings, which must not be zero. -/
def checkLimit : Option Nat → Except String (Option Nat)
  | some 0 => .error "max_depth must be at least 1"
  | limit => .ok limit

/-- The policy of some settings. -/
def ofSettings (settings : Settings) : Except Failure Policy := do
  let strict ← setting "strict" (settings.bool? heading "strict")
  let allowEmptyBranches ←
    setting "allow_empty_branches" (settings.bool? heading "allow_empty_branches")
  let maxDepth ← setting "max_depth" (settings.unsigned? heading "max_depth" >>= checkLimit)
  return {
    strict := strict.getD default.strict
    maxDepth := maxDepth.getD default.maxDepth
    allowEmptyBranches := allowEmptyBranches.getD default.allowEmptyBranches }

/-! ### Overrides -/

/-- Put overrides over a policy. -/
def override (policy : Policy) (overrides : Overrides) : Except Failure Policy :=
  if overrides.maxDepth = some 0 then
    .error (.invalidSetting "cli" "max-depth" "max-depth must be at least 1")
  else
    .ok {
      strict := policy.strict || overrides.strict
      maxDepth := overrides.maxDepth.getD policy.maxDepth
      allowEmptyBranches := overrides.allowEmptyBranches.getD policy.allowEmptyBranches }

/-- The policy in force for some settings, if there are any, and overrides. -/
def resolve (settings : Option Settings) (overrides : Overrides) : Except Failure Policy :=
  match settings with
  | none => default.override overrides
  | some settings => ofSettings settings >>= (·.override overrides)

end StrategyDoc.Policy
