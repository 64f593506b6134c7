import StrategyDoc.Policy.Resolution
import StrategyDoc.Proofs.Reading

/-! # Where a policy comes from

A policy is put together from three settings and from the overrides of one run.  Each of these
sources can stand in the way (`Policy.Obstacle`): a setting that cannot be read, or a nesting
limit of zero, be it among the settings or among the overrides.  There is a policy exactly if
nothing stands in the way, and then each of its fields is known from the sources; otherwise the
failure names the first source that does (`Policy.resolve_precedence`).  An override does not
help against a limit of zero in the settings, and does not take strictness back. -/

namespace StrategyDoc

/-- Settings in which nothing is set. -/
def Settings.silent : Settings := ⟨fun _ _ => .ok none, fun _ _ => .ok none⟩

namespace Policy

/-! ### Sources -/

/-- What a policy is put together from, in the order in which it is looked at. -/
inductive Source where
  | strict
  | allowEmptyBranches
  | maxDepth
  /-- The nesting limit among the overrides. -/
  | maxDepthOverride
deriving DecidableEq, Repr

namespace Source

/-- The number of sources that are looked at before. -/
def rank : Source → Nat
  | strict => 0
  | allowEmptyBranches => 1
  | maxDepth => 2
  | maxDepthOverride => 3

/-- The failure that names the source. -/
def failure (reason : String) : Source → Failure
  | strict => .invalidSetting "validator" "strict" reason
  | allowEmptyBranches => .invalidSetting "validator" "allow_empty_branches" reason
  | maxDepth => .invalidSetting "validator" "max_depth" reason
  | maxDepthOverride => .invalidSetting "cli" "max-depth" reason

theorem rank_injective {source source' : Source} (h : source'.rank = source.rank) :
    source' = source := by
  cases source <;> cases source' <;> first | rfl | nomatch h

theorem exitStatus_failure (source : Source) (reason : String) :
    (source.failure reason).exitStatus = 2 := by
  cases source <;> rfl

end Source

/-- The source cannot be used, for the reason. -/
inductive Obstacle (settings : Settings) (overrides : Overrides) : Source → String → Prop
  | strict {reason : String} (h : settings.bool? "validator" "strict" = .error reason) :
      Obstacle settings overrides .strict reason
  | allowEmptyBranches {reason : String}
      (h : settings.bool? "validator" "allow_empty_branches" = .error reason) :
      Obstacle settings overrides .allowEmptyBranches reason
  | maxDepth {reason : String} (h : settings.unsigned? "validator" "max_depth" = .error reason) :
      Obstacle settings overrides .maxDepth reason
  | zeroDepth (h : settings.unsigned? "validator" "max_depth" = .ok (some 0)) :
      Obstacle settings overrides .maxDepth "max_depth must be at least 1"
  | zeroOverride (h : overrides.maxDepth = some 0) :
      Obstacle settings overrides .maxDepthOverride "max-depth must be at least 1"

/-- The source is the first one that cannot be used. -/
def FirstObstacle (settings : Settings) (overrides : Overrides) (source : Source)
    (reason : String) : Prop :=
  Obstacle settings overrides source reason ∧
    ∀ earlier, earlier.rank < source.rank → ∀ reason, ¬Obstacle settings overrides earlier reason

/-- The sources can be used: this is what the settings say, and no limit is zero. -/
structure Usable (settings : Settings) (overrides : Overrides) (strict? allowed? : Option Bool)
    (limit? : Option Nat) : Prop where
  strict : settings.bool? "validator" "strict" = .ok strict?
  allowEmptyBranches : settings.bool? "validator" "allow_empty_branches" = .ok allowed?
  maxDepth : settings.unsigned? "validator" "max_depth" = .ok limit?
  maxDepth_ne_zero : limit? ≠ some 0
  override_ne_zero : overrides.maxDepth ≠ some 0

section

variable {settings : Settings} {overrides : Overrides} {strict? allowed? : Option Bool}
  {limit? : Option Nat}

theorem not_obstacle_strict (h : settings.bool? "validator" "strict" = .ok strict?)
    (reason : String) : ¬Obstacle settings overrides .strict reason := by
  intro hobstacle
  cases hobstacle with
  | strict hread => nomatch h.symm.trans hread

theorem not_obstacle_allowEmptyBranches
    (h : settings.bool? "validator" "allow_empty_branches" = .ok allowed?) (reason : String) :
    ¬Obstacle settings overrides .allowEmptyBranches reason := by
  intro hobstacle
  cases hobstacle with
  | allowEmptyBranches hread => nomatch h.symm.trans hread

theorem not_obstacle_maxDepth (h : settings.unsigned? "validator" "max_depth" = .ok limit?)
    (hne : limit? ≠ some 0) (reason : String) :
    ¬Obstacle settings overrides .maxDepth reason := by
  intro hobstacle
  cases hobstacle with
  | maxDepth hread => nomatch h.symm.trans hread
  | zeroDepth hread => exact hne (Except.ok.inj (h.symm.trans hread))

theorem Usable.not_obstacle (h : Usable settings overrides strict? allowed? limit?)
    (source : Source) (reason : String) : ¬Obstacle settings overrides source reason := by
  cases source with
  | strict => exact not_obstacle_strict h.strict reason
  | allowEmptyBranches => exact not_obstacle_allowEmptyBranches h.allowEmptyBranches reason
  | maxDepth => exact not_obstacle_maxDepth h.maxDepth h.maxDepth_ne_zero reason
  | maxDepthOverride => exact fun (.zeroOverride hzero) => h.override_ne_zero hzero

theorem firstObstacle_allowEmptyBranches {reason : String}
    (hstrict : settings.bool? "validator" "strict" = .ok strict?)
    (h : Obstacle settings overrides .allowEmptyBranches reason) :
    FirstObstacle settings overrides .allowEmptyBranches reason := by
  refine ⟨h, fun earlier hearlier => ?_⟩
  cases earlier with
  | strict => exact not_obstacle_strict hstrict
  | _ => nomatch hearlier

theorem firstObstacle_maxDepth {reason : String}
    (hstrict : settings.bool? "validator" "strict" = .ok strict?)
    (hallowed : settings.bool? "validator" "allow_empty_branches" = .ok allowed?)
    (h : Obstacle settings overrides .maxDepth reason) :
    FirstObstacle settings overrides .maxDepth reason := by
  refine ⟨h, fun earlier hearlier => ?_⟩
  cases earlier with
  | strict => exact not_obstacle_strict hstrict
  | allowEmptyBranches => exact not_obstacle_allowEmptyBranches hallowed
  | _ => nomatch hearlier

theorem firstObstacle_maxDepthOverride {reason : String}
    (hstrict : settings.bool? "validator" "strict" = .ok strict?)
    (hallowed : settings.bool? "validator" "allow_empty_branches" = .ok allowed?)
    (hlimit : settings.unsigned? "validator" "max_depth" = .ok limit?)
    (hzero : limit? ≠ some 0)
    (h : Obstacle settings overrides .maxDepthOverride reason) :
    FirstObstacle settings overrides .maxDepthOverride reason := by
  refine ⟨h, fun earlier hearlier => ?_⟩
  cases earlier with
  | strict => exact not_obstacle_strict hstrict
  | allowEmptyBranches => exact not_obstacle_allowEmptyBranches hallowed
  | maxDepth => exact not_obstacle_maxDepth hlimit hzero
  | maxDepthOverride => exact absurd hearlier (Nat.lt_irrefl _)

theorem Usable.unique {strict' allowed' : Option Bool} {limit' : Option Nat}
    (h : Usable settings overrides strict? allowed? limit?)
    (h' : Usable settings overrides strict' allowed' limit') :
    strict' = strict? ∧ allowed' = allowed? ∧ limit' = limit? :=
  ⟨Except.ok.inj (h'.strict.symm.trans h.strict),
    Except.ok.inj (h'.allowEmptyBranches.symm.trans h.allowEmptyBranches),
    Except.ok.inj (h'.maxDepth.symm.trans h.maxDepth)⟩

theorem Obstacle.unique {source : Source} {reason reason' : String}
    (h : Obstacle settings overrides source reason)
    (h' : Obstacle settings overrides source reason') : reason' = reason := by
  cases h with
  | strict hread =>
    cases h' with
    | strict hread' => exact Except.error.inj (hread'.symm.trans hread)
  | allowEmptyBranches hread =>
    cases h' with
    | allowEmptyBranches hread' => exact Except.error.inj (hread'.symm.trans hread)
  | maxDepth hread =>
    cases h' with
    | maxDepth hread' => exact Except.error.inj (hread'.symm.trans hread)
    | zeroDepth hread' => nomatch hread'.symm.trans hread
  | zeroDepth hread =>
    cases h' with
    | maxDepth hread' => nomatch hread'.symm.trans hread
    | zeroDepth => rfl
  | zeroOverride =>
    cases h' with
    | zeroOverride => rfl

/-- The first source that cannot be used is known too. -/
theorem FirstObstacle.unique {source source' : Source} {reason reason' : String}
    (h : FirstObstacle settings overrides source reason)
    (h' : FirstObstacle settings overrides source' reason') :
    source' = source ∧ reason' = reason := by
  have hle : source.rank ≤ source'.rank :=
    Nat.le_of_not_lt fun hlt => h.2 source' hlt reason' h'.1
  have hge : source'.rank ≤ source.rank :=
    Nat.le_of_not_lt fun hlt => h'.2 source hlt reason h.1
  obtain rfl := Source.rank_injective (Nat.le_antisymm hge hle)
  exact ⟨rfl, h.1.unique h'.1⟩

/-! ### Putting a policy together -/

/-- What sources that can be used make of a policy: an override counts before a setting, and a
setting before the default, but strictness is wanted if either wants it. -/
def combined (overrides : Overrides) (strict? allowed? : Option Bool) (limit? : Option Nat) :
    Policy where
  strict := overrides.strict || strict?.getD false
  maxDepth := (overrides.maxDepth.or limit?).getD 128
  allowEmptyBranches := (overrides.allowEmptyBranches.or allowed?).getD true

theorem Usable.one_le_maxDepth (h : Usable settings overrides strict? allowed? limit?) :
    1 ≤ (combined overrides strict? allowed? limit?).maxDepth := by
  have hoverride := h.override_ne_zero
  have hsetting := h.maxDepth_ne_zero
  unfold combined
  cases hdepth : overrides.maxDepth with
  | some n =>
    rw [hdepth] at hoverride
    exact Nat.one_le_iff_ne_zero.mpr fun hzero => hoverride (congrArg some hzero)
  | none =>
    cases limit? with
    | some n => exact Nat.one_le_iff_ne_zero.mpr fun hzero => hsetting (congrArg some hzero)
    | none => exact Nat.le_of_ble_eq_true rfl

/-- Without settings there is a policy as from settings in which nothing is set. -/
theorem resolve_eq_bind (settings : Option Settings) (overrides : Overrides) :
    resolve settings overrides =
      ofSettings (settings.getD .silent) >>= (·.override overrides) := by
  cases settings with
  | none => rfl
  | some settings => rfl

theorem ofSettings_eq (settings : Settings) :
    ofSettings settings = do
      let strict ← setting "strict" (settings.bool? "validator" "strict")
      let allowed ← setting "allow_empty_branches"
        (settings.bool? "validator" "allow_empty_branches")
      let limit ← setting "max_depth" (settings.unsigned? "validator" "max_depth" >>= checkLimit)
      return ⟨strict.getD false, limit.getD 128, allowed.getD true⟩ := rfl

theorem checkLimit_of_ne_zero (h : limit? ≠ some 0) : checkLimit limit? = .ok limit? := by
  unfold checkLimit
  split
  · exact absurd rfl h
  · rfl

theorem ofSettings_of_ok (hstrict : settings.bool? "validator" "strict" = .ok strict?)
    (hallowed : settings.bool? "validator" "allow_empty_branches" = .ok allowed?)
    (hlimit : settings.unsigned? "validator" "max_depth" = .ok limit?)
    (hzero : limit? ≠ some 0) :
    ofSettings settings = .ok ⟨strict?.getD false, limit?.getD 128, allowed?.getD true⟩ := by
  rw [ofSettings_eq, hstrict, hallowed, hlimit]
  show (setting "max_depth" (checkLimit limit?)).bind _ = _
  rw [checkLimit_of_ne_zero hzero]
  rfl

theorem override_of_ne_zero (h : overrides.maxDepth ≠ some 0) :
    override ⟨strict?.getD false, limit?.getD 128, allowed?.getD true⟩ overrides
      = .ok (combined overrides strict? allowed? limit?) := by
  obtain ⟨strict, limit, allowed⟩ := overrides
  rw [override, if_neg h, combined, Bool.or_comm]
  cases limit <;> cases allowed <;> rfl

theorem override_of_zero (policy : Policy) (h : overrides.maxDepth = some 0) :
    policy.override overrides
      = .error (Source.maxDepthOverride.failure "max-depth must be at least 1") := by
  rw [override, if_pos h]
  rfl

end

/-- Either all sources can be used, or one of them is the first that cannot. -/
theorem resolve_cases (settings : Option Settings) (overrides : Overrides) :
    (∃ strict? allowed? limit?,
      Usable (settings.getD .silent) overrides strict? allowed? limit? ∧
        resolve settings overrides = .ok (combined overrides strict? allowed? limit?)) ∨
    (∃ source reason, FirstObstacle (settings.getD .silent) overrides source reason ∧
      resolve settings overrides = .error (source.failure reason)) := by
  rw [resolve_eq_bind]
  generalize settings.getD .silent = settings
  cases hstrict : settings.bool? "validator" "strict" with
  | error reason =>
    rw [ofSettings_eq, hstrict]
    exact .inr ⟨.strict, reason, ⟨.strict hstrict, nofun⟩, rfl⟩
  | ok strict? =>
  cases hallowed : settings.bool? "validator" "allow_empty_branches" with
  | error reason =>
    rw [ofSettings_eq, hstrict, hallowed]
    exact .inr ⟨.allowEmptyBranches, reason,
      firstObstacle_allowEmptyBranches hstrict (.allowEmptyBranches hallowed), rfl⟩
  | ok allowed? =>
  cases hlimit : settings.unsigned? "validator" "max_depth" with
  | error reason =>
    rw [ofSettings_eq, hstrict, hallowed, hlimit]
    exact .inr ⟨.maxDepth, reason,
      firstObstacle_maxDepth hstrict hallowed (.maxDepth hlimit), rfl⟩
  | ok limit? =>
  by_cases hzero : limit? = some 0
  · rw [hzero] at hlimit
    rw [ofSettings_eq, hstrict, hallowed, hlimit]
    exact .inr ⟨.maxDepth, _, firstObstacle_maxDepth hstrict hallowed (.zeroDepth hlimit), rfl⟩
  rw [ofSettings_of_ok hstrict hallowed hlimit hzero]
  by_cases hoverride : overrides.maxDepth = some 0
  · exact .inr ⟨.maxDepthOverride, _,
      firstObstacle_maxDepthOverride hstrict hallowed hlimit hzero (.zeroOverride hoverride),
      override_of_zero _ hoverride⟩
  · exact .inl ⟨strict?, allowed?, limit?, ⟨hstrict, hallowed, hlimit, hzero, hoverride⟩,
      override_of_ne_zero hoverride⟩

/-- **Where a policy comes from.**  There is a policy exactly if every source can be used, and
it is the combination of what they say, with a positive limit.  Otherwise the failure names the
first source that cannot be used, with the reason. -/
theorem resolve_precedence (settings : Option Settings) (overrides : Overrides) :
    (∀ policy, resolve settings overrides = .ok policy ↔
      ∃ strict? allowed? limit?,
        Usable (settings.getD .silent) overrides strict? allowed? limit? ∧
          policy = combined overrides strict? allowed? limit? ∧ 1 ≤ policy.maxDepth) ∧
    (∀ failure, resolve settings overrides = .error failure ↔
      ∃ source reason, FirstObstacle (settings.getD .silent) overrides source reason ∧
        failure = source.failure reason ∧ failure.exitStatus = 2) := by
  refine ⟨fun policy => ⟨fun h => ?_, ?_⟩, fun failure => ⟨fun h => ?_, ?_⟩⟩
  · obtain ⟨strict?, allowed?, limit?, husable, hok⟩ | ⟨source, reason, -, herror⟩ :=
      resolve_cases settings overrides
    · obtain rfl := Except.ok.inj (h.symm.trans hok)
      exact ⟨strict?, allowed?, limit?, husable, rfl, husable.one_le_maxDepth⟩
    · nomatch h.symm.trans herror
  · rintro ⟨strict?, allowed?, limit?, husable, rfl, -⟩
    obtain ⟨strict', allowed', limit', husable', hok⟩ | ⟨source, reason, hfirst, -⟩ :=
      resolve_cases settings overrides
    · obtain ⟨rfl, rfl, rfl⟩ := husable.unique husable'
      exact hok
    · exact absurd hfirst.1 (husable.not_obstacle source reason)
  · obtain ⟨_, _, _, -, hok⟩ | ⟨source, reason, hfirst, herror⟩ :=
      resolve_cases settings overrides
    · nomatch h.symm.trans hok
    · obtain rfl := Except.error.inj (h.symm.trans herror)
      exact ⟨source, reason, hfirst, rfl, source.exitStatus_failure reason⟩
  · rintro ⟨source, reason, hfirst, rfl, -⟩
    obtain ⟨_, _, _, husable, -⟩ | ⟨source', reason', hfirst', herror⟩ :=
      resolve_cases settings overrides
    · exact absurd hfirst.1 (husable.not_obstacle source reason)
    · obtain ⟨rfl, rfl⟩ := hfirst.unique hfirst'
      exact herror

end Policy

end StrategyDoc
