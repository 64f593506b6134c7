import StrategyDoc.Proofs.Comparison
import StrategyDoc.Proofs.Places
import StrategyDoc.Proofs.Rereading
import StrategyDoc.Proofs.RootExpression

/-! # Empty branches

A policy that forbids empty branches finds what the policy that allows them does, and besides a
diagnostic at each empty branch (`Thins`).  Only a branch stands at a path that ends in `then`
or `else` (`Place.Leads.role_eq_branch_iff`), so the additional diagnostics can be told from
all others by their kind and path.

In a document that is accepted otherwise, they are one for each empty branch of the strategy,
in the order of the walk (`Expression.emptyBranches`). -/

namespace StrategyDoc

/-! ### Paths to branches -/

/-- The path ends in the name of a branch. -/
def Path.EndsAtBranch (path : Path) : Prop :=
  path.getLast? = some (.field "then") ∨ path.getLast? = some (.field "else")
deriving Decidable

namespace Path

theorem not_endsAtBranch_nil : ¬ EndsAtBranch [] := nofun

theorem endsAtBranch_cons {step : Step} {path : Path} :
    EndsAtBranch (step :: path)
      ↔ path = [] ∧ (step = .field "then" ∨ step = .field "else") ∨ path.EndsAtBranch := by
  unfold EndsAtBranch
  cases path with
  | nil => simp
  | cons next rest => simp

end Path

theorem Catalog.not_branch_of_mem_shapes {specs : List FieldSpec} (h : specs ∈ shapes) :
    "then" ∉ specs.map (·.1) ∧ "else" ∉ specs.map (·.1) := by
  have hall : ∀ specs ∈ shapes, "then" ∉ specs.map (·.1) ∧ "else" ∉ specs.map (·.1) := by
    decide +kernel
  exact hall specs h

theorem Catalog.not_branch_of_mem_all {contract : Contract} (h : contract ∈ all) :
    "then" ∉ contract.fieldNames ∧ "else" ∉ contract.fieldNames := by
  have hall : ∀ c ∈ all, "then" ∉ c.fieldNames ∧ "else" ∉ c.fieldNames := by decide +kernel
  exact hall contract h

theorem Declares.role_eq_branch_iff {role : Role} {members : List (String × Json)}
    {slots : List Slot} (h : Declares role members slots) (hrole : role.InCatalog) {slot : Slot}
    (hslot : slot ∈ slots) : slot.role = .branch ↔ slot.name = "then" ∨ slot.name = "else" := by
  have hspecs : ∀ {specs : List FieldSpec}, slot ∈ specs.map Slot.ofSpec →
      "then" ∉ specs.map (·.1) ∧ "else" ∉ specs.map (·.1) →
      (slot.role = .branch ↔ slot.name = "then" ∨ slot.name = "else") := by
    rintro specs hslot ⟨hthen, helse⟩
    obtain ⟨spec, hspec, rfl⟩ := List.mem_map.mp hslot
    refine iff_of_false nofun ?_
    rintro (hname | hname)
    · exact hthen (hname ▸ List.mem_map_of_mem hspec)
    · exact helse (hname ▸ List.mem_map_of_mem hspec)
  cases h with
  | document =>
      simp only [documentSlots, List.mem_cons, List.not_mem_nil, or_false] at hslot
      rcases hslot with rfl | rfl | rfl <;> simp
  | conditional =>
      simp only [conditionalSlots, List.mem_cons, List.not_mem_nil, or_false] at hslot
      rcases hslot with rfl | rfl | rfl | rfl <;> simp
  | call hcontract =>
      rcases List.mem_cons.mp hslot with rfl | hslot
      · simp [Slot.ofSpec]
      · exact hspecs hslot (Catalog.not_branch_of_mem_all hcontract)
  | @shape _ specs =>
      rcases hrole with hrole | hrole
      · cases hrole
      · refine hspecs hslot (Catalog.not_branch_of_mem_shapes (hrole specs ?_))
        rw [Role.kind, FieldKind.shapes_shape]
        exact .head _

/-- **Paths to branches.**  What stands at the end of a path is asked for as a branch exactly
if the last step is to one. -/
theorem Place.Leads.role_eq_branch_iff {start target : Place} {path : Path}
    (h : start.Leads path target) (hstart : start.role.InCatalog) :
    target.role = .branch ↔ path = [] ∧ start.role = .branch ∨ path.EndsAtBranch := by
  induction h with
  | here => simp [Path.not_endsAtBranch_nil]
  | item _ _ _ ih =>
      rw [ih (.of_shapes_eq_nil rfl), Path.endsAtBranch_cons]
      simp
  | field hslots hslot _ _ ih =>
      rw [ih (hslots.inCatalog hstart hslot), Path.endsAtBranch_cons,
        hslots.role_eq_branch_iff hstart hslot]
      simp
  | marker _ _ ih =>
      rw [ih (.of_shapes_eq_nil rfl), Path.endsAtBranch_cons]
      simp

/-! ### Diagnostics about branches -/

namespace Diagnostic

/-- The diagnostic is about the length of a branch. -/
def AboutBranch (d : Diagnostic) : Prop := d.kind = .arrayLengthMismatch ∧ d.path.EndsAtBranch
deriving Decidable

end Diagnostic

theorem Defect.message_wrongLength_ne (expected found : Nat) :
    (wrongLength expected found).message ≠ emptyBranch.message := by
  have hstart : "expected exactly ".toList <+: (wrongLength expected found).message.toList := by
    unfold message
    dsimp only
    simp only [String.append_assoc, String.toList_append]
    exact List.prefix_append _ _
  intro h
  rw [h] at hstart
  revert hstart
  decide

section about

variable {policy : Policy} {start place : Place} {path : Path} {d e : Diagnostic}

/-- What is said about the length of an array is said about a sequence of another length, or
about an empty branch. -/
theorem Reported.cases_arrayLength (h : Reported policy place d)
    (hkind : d.kind = .arrayLengthMismatch) : d.path = []
      ∧ ((∃ expected found, place.role = .field (.sequence (some expected))
          ∧ d.message = (Defect.wrongLength expected found).message)
        ∨ place.role = .branch ∧ policy.allowEmptyBranches = false) := by
  cases h with
  | misfit h =>
      cases h with
      | wrongLength => exact ⟨rfl, .inl ⟨_, _, rfl, rfl⟩⟩
      | emptyBranch hforbidden => exact ⟨rfl, .inr ⟨rfl, hforbidden⟩⟩
      | _ => cases hkind
  | missing => cases hkind
  | undeclared => cases hkind

theorem Diagnostic.aboutBranch_of_message {ds : List Diagnostic} (h : Reports policy start ds)
    (hstart : start.role.InCatalog) (hd : d ∈ ds) (hkind : d.kind = .arrayLengthMismatch)
    (hmessage : d.message = Defect.emptyBranch.message) (hbranch : start.role ≠ .branch) :
    d.AboutBranch := by
  obtain ⟨path, place, e, hleads, hreported, rfl⟩ := h.exists_leads d hd
  obtain ⟨hpath, ⟨expected, found, _, hlength⟩ | ⟨hrole, _⟩⟩ := hreported.cases_arrayLength hkind
  · exact absurd (hlength.symm.trans hmessage) (Defect.message_wrongLength_ne expected found)
  · refine ⟨hkind, ?_⟩
    rcases (hleads.role_eq_branch_iff hstart).mp hrole with ⟨_, hrole⟩ | hends
    · exact absurd hrole hbranch
    · rw [Diagnostic.behind, hpath, List.append_nil]
      exact hends

theorem Diagnostic.not_aboutBranch {ds : List Diagnostic} (h : Reports policy start ds)
    (hstart : start.role.InCatalog) (hallowed : policy.allowEmptyBranches = true) (hd : d ∈ ds) :
    ¬ d.AboutBranch := by
  rintro ⟨hkind, hends⟩
  obtain ⟨path, place, e, hleads, hreported, rfl⟩ := h.exists_leads d hd
  obtain ⟨hpath, ⟨expected, _, hrole, _⟩ | ⟨_, hforbidden⟩⟩ := hreported.cases_arrayLength hkind
  · rw [Diagnostic.behind, hpath, List.append_nil] at hends
    have hbranch : place.role = .branch := (hleads.role_eq_branch_iff hstart).mpr (.inr hends)
    cases hbranch.symm.trans hrole
  · rw [hallowed] at hforbidden
    cases hforbidden

end about

/-! ### Diagnostics under both policies -/

/-- The second diagnostics are the first without some about empty branches. -/
inductive Thins : List Diagnostic → List Diagnostic → Prop
  | nil : Thins [] []
  | keep {as bs : List Diagnostic} (d : Diagnostic) (h : Thins as bs) : Thins (d :: as) (d :: bs)
  | drop {as bs : List Diagnostic} (d : Diagnostic) (hkind : d.kind = .arrayLengthMismatch)
      (hmessage : d.message = Defect.emptyBranch.message) (h : Thins as bs) : Thins (d :: as) bs

namespace Thins

variable {as bs as' bs' : List Diagnostic}

theorem refl (as : List Diagnostic) : Thins as as := by
  induction as with
  | nil => exact .nil
  | cons d as ih => exact .keep d ih

theorem append (h : Thins as bs) (h' : Thins as' bs') : Thins (as ++ as') (bs ++ bs') := by
  induction h with
  | nil => exact h'
  | keep d _ ih => exact .keep d ih
  | drop d hkind hmessage _ ih => exact .drop d hkind hmessage ih

theorem under (step : Step) (h : Thins as bs) :
    Thins (as.map (·.under step)) (bs.map (·.under step)) := by
  induction h with
  | nil => exact .nil
  | keep d _ ih => exact .keep (d.under step) ih
  | drop d hkind hmessage _ ih => exact .drop (d.under step) hkind hmessage ih

theorem congruence : Diagnostic.Congruence Thins where
  nil := .nil
  append := append
  under := under
  same d _ _ := .keep d .nil

/-- If a property tells what is left out from what is not, the second diagnostics are the first
without the property. -/
theorem filter_eq (h : Thins as bs) (p : Diagnostic → Prop) [DecidablePred p]
    (hdropped : ∀ d ∈ as, d.kind = .arrayLengthMismatch →
      d.message = Defect.emptyBranch.message → p d)
    (hkept : ∀ d ∈ bs, ¬ p d) : as.filter (fun d => ¬ p d) = bs := by
  induction h with
  | nil => rfl
  | keep d _ ih =>
      obtain ⟨_, hdropped⟩ := List.forall_mem_cons.mp hdropped
      obtain ⟨hd, hkept⟩ := List.forall_mem_cons.mp hkept
      rw [List.filter_cons_of_pos (by simpa using hd), ih hdropped hkept]
  | drop d hkind hmessage _ ih =>
      obtain ⟨hd, hdropped⟩ := List.forall_mem_cons.mp hdropped
      rw [List.filter_cons_of_neg (by simpa using hd hkind hmessage), ih hdropped hkept]

end Thins

namespace Validation

open Finding

section policies

variable (policy : Policy) {visit visit' : Visitor}

theorem thins_parts (hvisit : ∀ value, Thins (visit value).errors (visit' value).errors) :
    RelatedParts Thins (policy.withEmptyBranches false) (policy.withEmptyBranches true) visit
      visit' where
  congruence := Thins.congruence
  visit := hvisit
  undeclared _ _ := .refl _

theorem thins_branch (hvisit : ∀ value, Thins (visit value).errors (visit' value).errors)
    (value : Json) : Thins (branch (policy.withEmptyBranches false) visit value).errors
      (branch (policy.withEmptyBranches true) visit' value).errors := by
  cases value with
  | array items =>
      rw [branch_array_of_allowed (show (policy.withEmptyBranches true).allowEmptyBranches = false
        → items ≠ [] from nofun)]
      rcases branch_cases (policy.withEmptyBranches false) items with hallowed | ⟨hnil, hforbidden⟩
      · rw [branch_array_of_allowed hallowed]
        exact related_expressions (thins_parts policy hvisit) items
      · rw [branch_array_of_forbidden hnil hforbidden, hnil]
        exact .drop _ rfl rfl .nil
  | _ => exact .refl _

/-- **Forbidding empty branches only adds diagnostics**, all of them about empty branches. -/
theorem thins_expression (budget : Nat) (value : Json) :
    Thins (expression (policy.withEmptyBranches false) budget value).errors
      (expression (policy.withEmptyBranches true) budget value).errors := by
  induction budget generalizing value with
  | zero => exact .refl _
  | succ budget ih => exact related_node (thins_parts policy ih) (thins_branch policy ih) value

theorem thins_strategy (document : Json) :
    Thins (strategy (policy.withEmptyBranches false) document).errors
      (strategy (policy.withEmptyBranches true) document).errors := by
  have hvisit := thins_expression policy (policy.maxDepth - 1)
  exact related_strategy (thins_parts policy hvisit) (thins_branch policy hvisit) document

end policies

end Validation

/-! ### The empty branches of a strategy -/

/-- The paths to the empty branches among actions: the one to the branch itself if there is no
action, and otherwise those inside. -/
def Expression.emptyBranchOr (actions : List Expression) (inside : List Path) : List Path :=
  if actions.isEmpty then [[]] else inside

mutual

/-- The paths to the empty branches of an expression, in the order of the walk. -/
def Expression.emptyBranches : Expression → List Path
  | .number _ => []
  | .call _ fields => FieldValue.emptyBranchesOfFields fields
  | .conditional condition thenBranch none =>
    condition.emptyBranches.map (.field "if" :: ·)
      ++ (Expression.emptyBranchOr thenBranch (Expression.emptyBranchesFrom 0 thenBranch)).map
        (.field "then" :: ·)
  | .conditional condition thenBranch (some elseBranch) =>
    condition.emptyBranches.map (.field "if" :: ·)
      ++ (Expression.emptyBranchOr thenBranch (Expression.emptyBranchesFrom 0 thenBranch)).map
        (.field "then" :: ·)
      ++ (Expression.emptyBranchOr elseBranch (Expression.emptyBranchesFrom 0 elseBranch)).map
        (.field "else" :: ·)

/-- The paths to the empty branches of some expressions, the first of them with the number. -/
def Expression.emptyBranchesFrom (number : Nat) : List Expression → List Path
  | [] => []
  | e :: rest =>
    e.emptyBranches.map (.index number :: ·) ++ Expression.emptyBranchesFrom (number + 1) rest

def FieldValue.emptyBranches : FieldValue → List Path
  | .expression e => e.emptyBranches
  | .sequence items => Expression.emptyBranchesFrom 0 items
  | .choice _ => []
  | .text _ => []
  | .shape fields => FieldValue.emptyBranchesOfFields fields

def FieldValue.emptyBranchesOfFields : List (String × FieldValue) → List Path
  | [] => []
  | (name, value) :: rest =>
    value.emptyBranches.map (.field name :: ·) ++ FieldValue.emptyBranchesOfFields rest

end

/-- The paths to the empty branches that an `else` has part in. -/
def Expression.emptyBranchesOfElse : Option (List Expression) → List Path
  | none => []
  | some elseBranch =>
    (emptyBranchOr elseBranch (emptyBranchesFrom 0 elseBranch)).map (.field "else" :: ·)

theorem Expression.emptyBranches_conditional (condition : Expression)
    (thenBranch : List Expression) (elseBranch : Option (List Expression)) :
    (conditional condition thenBranch elseBranch).emptyBranches
      = condition.emptyBranches.map (.field "if" :: ·)
        ++ (emptyBranchOr thenBranch (emptyBranchesFrom 0 thenBranch)).map (.field "then" :: ·)
        ++ emptyBranchesOfElse elseBranch := by
  cases elseBranch with
  | none => rw [emptyBranches, emptyBranchesOfElse, List.append_nil]
  | some elseBranch => rw [emptyBranches, emptyBranchesOfElse]

/-- The paths to the empty branches of a strategy, in its document. -/
def Strategy.emptyBranches (s : Strategy) : List Path :=
  s.root.toExpression.emptyBranches.map (.field "strategy" :: ·)

/-- What is wrong with an empty branch at the path. -/
def Diagnostic.emptyBranch (path : Path) : Diagnostic :=
  ⟨path, .arrayLengthMismatch, Defect.emptyBranch.message⟩

theorem Diagnostic.map_emptyBranch_under (step : Step) (paths : List Path) :
    (paths.map emptyBranch).map (·.under step) = (paths.map (step :: ·)).map emptyBranch := by
  rw [List.map_map, List.map_map]
  rfl

namespace Validation

open Finding

section visits

variable {policy : Policy} {visit : Visitor} {members : List (String × Json)}

theorem errors_member_of_present {α : Type} {name : String} {absent : Finding α}
    {visit : Json → Finding α} {value : Json} {paths : List Path}
    (hmember : Json.member? name members = some value)
    (h : (visit value).errors = paths.map Diagnostic.emptyBranch) :
    (member name members absent visit).errors
      = (paths.map (.field name :: ·)).map Diagnostic.emptyBranch := by
  rw [errors_member, hmember]
  dsimp only
  rw [h, Diagnostic.map_emptyBranch_under]

theorem errors_branch_of_forbidden (hforbidden : policy.allowEmptyBranches = false)
    {items : List Json} {es : List Expression} (hitems : ItemsRepresent policy.strict items es)
    (h : itemErrors (fun item => (visit item).errors) items
      = (Expression.emptyBranchesFrom 0 es).map Diagnostic.emptyBranch) :
    (branch policy visit (.array items)).errors
      = (Expression.emptyBranchOr es (Expression.emptyBranchesFrom 0 es)).map
          Diagnostic.emptyBranch := by
  cases hitems with
  | nil =>
      rw [branch_array_of_forbidden rfl hforbidden]
      rfl
  | cons =>
      rw [branch_array_of_allowed fun _ => List.cons_ne_nil _ _, errors_expressions]
      exact h

end visits

end Validation

open Validation in
mutual

/-- **What is wrong with a value that represents an expression** of no more levels than the
budget, where empty branches are forbidden: nothing but its empty branches. -/
theorem Represents.errors_of_forbidden {policy : Policy}
    (hforbidden : policy.allowEmptyBranches = false) {value : Json} {e : Expression} :
    Represents policy.strict value e → ∀ budget, e.depth ≤ budget →
      (expression policy budget value).errors = e.emptyBranches.map Diagnostic.emptyBranch
  | .number => fun budget hdepth => by
      rw [Expression.depth] at hdepth
      obtain ⟨rest, rfl⟩ := Nat.exists_eq_add_of_le' hdepth
      rfl
  | .call hcontract hfunction hfields hdeclared => fun budget hdepth => by
      rw [Expression.depth] at hdepth
      obtain ⟨rest, rfl⟩ := Nat.exists_eq_add_of_le' (Nat.le_of_add_right_le hdepth)
      have hparts := hfields.errors_of_forbidden hforbidden rest (by omega)
      show (object policy (expression policy rest) _).errors = _
      rw [object_call hcontract hfunction, errors_call, undeclared_eq_nil_iff.mpr hdeclared,
        List.append_nil, Expression.emptyBranches]
      exact hparts
  | .conditional hfunction hif hcondition hthen hthenBranch helse hdeclared =>
    fun budget hdepth => by
      obtain ⟨rest, rfl⟩ := Nat.exists_eq_add_of_le' (Nat.le_trans (Expression.depth_pos _) hdepth)
      have hparts := Nat.not_lt.mpr hdepth
      have hconditionErrors := hcondition.errors_of_forbidden hforbidden rest
        (Nat.not_lt.mp fun h => hparts (Expression.lt_depth_conditional (.inl h)))
      have hthenErrors := hthenBranch.errors_of_forbidden hforbidden rest
        (Nat.not_lt.mp fun h => hparts (Expression.lt_depth_conditional (.inr (.inl h)))) 0
      have helseErrors := helse.errors_of_forbidden hforbidden rest fun es hes =>
        Nat.not_lt.mp fun h => hparts (Expression.lt_depth_conditional (.inr (.inr ⟨es, hes, h⟩)))
      show (object policy (expression policy rest) _).errors = _
      rw [object_conditional hfunction, Finding.errors_map, errors_conditional,
        undeclared_eq_nil_iff.mpr hdeclared, List.append_nil,
        errors_member_of_present hif hconditionErrors,
        errors_member_of_present hthen
          (errors_branch_of_forbidden hforbidden hthenBranch hthenErrors),
        errors_member, Expression.emptyBranches_conditional, List.map_append, List.map_append,
        List.append_assoc, ← helseErrors]
      rfl

theorem ItemsRepresent.errors_of_forbidden {policy : Policy}
    (hforbidden : policy.allowEmptyBranches = false) {items : List Json} {es : List Expression} :
    ItemsRepresent policy.strict items es → ∀ budget, Expression.depthOfAll es ≤ budget → ∀ number,
      (items.zipIdx number).flatMap (fun (item, i) =>
          (expression policy budget item).errors.map (·.under (.index i)))
        = (Expression.emptyBranchesFrom number es).map Diagnostic.emptyBranch
  | .nil => fun _ _ _ => rfl
  | .cons hitem hitems => fun budget hdepth number => by
      rw [Expression.depthOfAll, Nat.max_le] at hdepth
      have hfirst := hitem.errors_of_forbidden hforbidden budget hdepth.1
      have hrest := hitems.errors_of_forbidden hforbidden budget hdepth.2 (number + 1)
      rw [List.zipIdx_cons, List.flatMap_cons, hrest, Expression.emptyBranchesFrom,
        List.map_append, ← Diagnostic.map_emptyBranch_under, ← hfirst]

theorem ElseRepresents.errors_of_forbidden {policy : Policy}
    (hforbidden : policy.allowEmptyBranches = false) {value : Option Json}
    {elseBranch : Option (List Expression)} :
    ElseRepresents policy.strict value elseBranch → ∀ budget,
      (∀ es, elseBranch = some es → Expression.depthOfAll es ≤ budget) →
      (match value with
        | none => []
        | some v => (branch policy (expression policy budget) v).errors.map
            (·.under (.field "else")))
        = (Expression.emptyBranchesOfElse elseBranch).map Diagnostic.emptyBranch
  | .absent => fun _ _ => rfl
  | .present hitems => fun budget hdepth => by
      have hinside := hitems.errors_of_forbidden hforbidden budget (hdepth _ rfl) 0
      dsimp only
      rw [errors_branch_of_forbidden hforbidden hitems hinside, Diagnostic.map_emptyBranch_under,
        Expression.emptyBranchesOfElse]

theorem FieldRepresents.errors_of_forbidden {policy : Policy}
    (hforbidden : policy.allowEmptyBranches = false) {kind : FieldKind} {value : Json}
    {v : FieldValue} : FieldRepresents policy.strict kind value v → ∀ budget, v.depth ≤ budget →
      (fieldValue policy (expression policy budget) kind value).errors
        = v.emptyBranches.map Diagnostic.emptyBranch
  | .expression h => fun budget hdepth => by
      rw [fieldValue_expression]
      exact h.errors_of_forbidden hforbidden budget hdepth
  | .sequence hlength hitems => fun budget hdepth => by
      rw [fieldValue_sequence hlength, Finding.errors_map, errors_expressions]
      exact hitems.errors_of_forbidden hforbidden budget hdepth 0
  | .choice h => fun _ _ => by
      rw [fieldValue_oneOf_of_mem h]
      rfl
  | .text => fun _ _ => rfl
  | .identifier h => fun _ _ => by
      rw [fieldValue_identifier_of_pos ((isIdentifier_iff _).mpr h)]
      rfl
  | .shape hfields hdeclared => fun budget hdepth => by
      rw [fieldValue_shape, Finding.errors_followedBy, undeclared_eq_nil_iff.mpr hdeclared,
        List.append_nil, FieldValue.emptyBranches]
      exact hfields.errors_of_forbidden hforbidden budget hdepth
  | .optional h => fun budget hdepth => by
      rw [fieldValue_optional]
      exact h.errors_of_forbidden hforbidden budget hdepth

theorem FieldsRepresent.errors_of_forbidden {policy : Policy}
    (hforbidden : policy.allowEmptyBranches = false) {specs : List FieldSpec}
    {members : List (String × Json)} {fields : List (String × FieldValue)} :
    FieldsRepresent policy.strict specs members fields → ∀ budget,
      FieldValue.depthOfFields fields ≤ budget →
      (fieldValues policy (expression policy budget) specs members).flatMap (·.errors)
        = (FieldValue.emptyBranchesOfFields fields).map Diagnostic.emptyBranch
  | .nil => fun _ _ => by
      rw [fieldValues]
      rfl
  | .skip habsent hoptional hfields => fun budget hdepth => by
      rw [fieldValues, habsent]
      dsimp only
      rw [if_neg hoptional]
      exact hfields.errors_of_forbidden hforbidden budget hdepth
  | .take hpresent hvalue hfields => fun budget hdepth => by
      rw [FieldValue.depthOfFields, Nat.max_le] at hdepth
      have hfirst := hvalue.errors_of_forbidden hforbidden budget hdepth.1
      have hrest := hfields.errors_of_forbidden hforbidden budget hdepth.2
      rw [fieldValues, hpresent]
      dsimp only
      rw [List.flatMap_cons, hrest, Finding.errors_under, Finding.errors_map, hfirst,
        Diagnostic.map_emptyBranch_under, ← List.map_append, FieldValue.emptyBranchesOfFields]

end

section documents

variable {policy : Policy} {document : Json} {s : Strategy}

open Validation in
theorem DocumentRepresents.errors_of_forbidden (hforbidden : policy.allowEmptyBranches = false)
    (h : DocumentRepresents policy.strict document s) (hdepth : s.root.depth ≤ policy.maxDepth) :
    (strategy policy document).errors = s.emptyBranches.map Diagnostic.emptyBranch := by
  cases h with
  | @intro members value _ hname hauthor hstrategy hroot hdeclared =>
      obtain ⟨inner, rfl, hfunction⟩ := hroot.exists_members
      have hlimit : 1 ≤ policy.maxDepth := Nat.le_trans (Expression.depth_pos _) hdepth
      have hrootErrors : (root policy (.object inner)).errors
          = s.root.toExpression.emptyBranches.map Diagnostic.emptyBranch := by
        have hvisit := hroot.errors_of_forbidden hforbidden policy.maxDepth hdepth
        rwa [expression_eq_root hlimit hfunction, Finding.errors_map] at hvisit
      have hnameErrors : (member "name" members (missing "name") string).errors = [] :=
        errors_member_missing_eq_nil_iff.mpr ⟨_, hname, rfl⟩
      have hauthorErrors : (member "author" members (missing "author") string).errors = [] :=
        errors_member_missing_eq_nil_iff.mpr ⟨_, hauthor, rfl⟩
      rw [Validation.errors_strategy, hnameErrors, hauthorErrors,
        undeclared_eq_nil_iff.mpr hdeclared, List.nil_append, List.nil_append, List.append_nil,
        errors_member_of_present hstrategy hrootErrors]
      rfl

theorem Strategy.ofJson?_withEmptyBranches_of_ok
    (h : Strategy.ofJson? (policy.withEmptyBranches true) document = .ok s) :
    Strategy.ofJson? (policy.withEmptyBranches false) document
      = if s.emptyBranches = [] then .ok s
        else .error (s.emptyBranches.map Diagnostic.emptyBranch) := by
  obtain ⟨hdocument, hdepth, _⟩ := Strategy.ofJson?_eq_ok_iff.mp h
  have herrors : (Validation.strategy (policy.withEmptyBranches false) document).errors
      = s.emptyBranches.map Diagnostic.emptyBranch := hdocument.errors_of_forbidden rfl hdepth
  by_cases hnone : s.emptyBranches = []
  · rw [hnone, List.map_nil] at herrors
    obtain ⟨s', hs'⟩ := (Validation.coherent_strategy _).exists_result_eq_ok_iff.mpr herrors
    have hread : Strategy.ofJson? (policy.withEmptyBranches false) document = .ok s' := hs'
    rw [if_pos hnone, hread, (Strategy.ofJson?_eq_ok_iff.mp hread).1.unique hdocument]
  · have hne : (Validation.strategy (policy.withEmptyBranches false) document).errors ≠ [] := by
      rw [herrors]
      exact fun hnil => hnone (List.map_eq_nil_iff.mp hnil)
    rw [if_neg hnone, Strategy.ofJson?, Finding.result_of_errors_ne_nil hne, herrors]

end documents

/-- **Forbidding empty branches only adds diagnostics at empty branches.**  Without those about
the length of a branch, the diagnostics are the ones where empty branches are allowed.  What is
read there is read where they are forbidden too, or it is refused with one diagnostic for each
empty branch. -/
theorem Strategy.ofJson?_withEmptyBranches (policy : Policy) (document : Json) :
    (Diagnostic.ofResult (Strategy.ofJson? (policy.withEmptyBranches false) document)).filter
        (fun d => ¬ d.AboutBranch)
      = Diagnostic.ofResult (Strategy.ofJson? (policy.withEmptyBranches true) document)
    ∧ ∀ s, Strategy.ofJson? (policy.withEmptyBranches true) document = .ok s →
      Strategy.ofJson? (policy.withEmptyBranches false) document
        = if s.emptyBranches = [] then .ok s
          else .error (s.emptyBranches.map Diagnostic.emptyBranch) := by
  have hforbidden := Validation.reports_ofJson?_strategy (policy.withEmptyBranches false) document
  have hallowed := Validation.reports_ofJson?_strategy (policy.withEmptyBranches true) document
  have hthins : Thins (Diagnostic.ofResult (ofJson? (policy.withEmptyBranches false) document))
      (Diagnostic.ofResult (ofJson? (policy.withEmptyBranches true) document)) := by
    rw [ofJson?, ofJson?, Finding.ofResult_result, Finding.ofResult_result]
    exact Validation.thins_strategy policy document
  refine ⟨hthins.filter_eq _ (fun d hd hkind hmessage => ?_) (fun d hd => ?_), fun s hs => ?_⟩
  · exact Diagnostic.aboutBranch_of_message hforbidden (.inl rfl) hd hkind hmessage (by simp)
  · exact Diagnostic.not_aboutBranch hallowed (.inl rfl) rfl hd
  · exact ofJson?_withEmptyBranches_of_ok hs

/-- A document whose condition has an empty `else`, without actions. -/
def Json.withoutActions : Json :=
  .object [("author", .string "nobody"), ("name", .string "idle"),
    ("strategy", .object [("function", .string conditionalWord),
      ("if", .object [("else", .array []), ("function", .string conditionalWord),
        ("if", .number (.integer 1)), ("then", .array [.number (.integer 2)])]),
      ("then", .array [])])]

/-- Both empty branches are found, the one in the condition first. -/
theorem Strategy.ofJson?_withoutActions :
    ∃ s, ofJson? ⟨true, 3, true⟩ Json.withoutActions = .ok s
      ∧ s.emptyBranches = [[.field "strategy", .field "if", .field "else"],
          [.field "strategy", .field "then"]]
      ∧ ofJson? ⟨true, 3, false⟩ Json.withoutActions
        = .error [Diagnostic.emptyBranch [.field "strategy", .field "if", .field "else"],
            Diagnostic.emptyBranch [.field "strategy", .field "then"]] := by
  obtain ⟨_, hread⟩ := ofJson?_withEmptyBranches ⟨true, 3, true⟩ Json.withoutActions
  exact ⟨_, rfl, rfl, hread _ rfl⟩

end StrategyDoc
