import StrategyDoc.Proofs.Locality
import StrategyDoc.Proofs.Visits

/-! # A walk with one log

The same visits once more, for a walker that knows the path to the current value and keeps one
log of everything that is wrong.  Whether a visit to several parts failed is seen from the log,
which has grown since a mark or has not.  For each visit `X` the theorem `performs_X` says that
the walk finds what the finding says (`Walking.Performs`): its answer is the value of the
finding, the diagnostics of the finding, behind the path, come to the log, and the path is the
same as before.  The child expressions are one level below, until there are too many levels
(`Walking.performs_expression`). -/

namespace StrategyDoc

/-- Where a walk is, and what it has noted so far. -/
structure Walker where
  path : Path
  log : Diagnostic.Log

/-- The walker at the root, with nothing in the log. -/
def Walker.start : Walker := ⟨[], ∅⟩

/-- A part of the walk. -/
abbrev Walking (α : Type) := StateM Walker α

namespace Walking

variable {α β : Type}

/-! ### Steps -/

/-- Note a defect of the current value. -/
def report (defect : Defect) : Walking Unit :=
  modify fun w => { w with log := w.log.push ⟨w.path, defect.kind, defect.message⟩ }

/-- Note a defect that leaves no value. -/
def refuse (defect : Defect) : Walking (Option α) := do
  report defect
  return none

/-- Go one step down, and come back. -/
def descend (step : Step) (visit : Walking α) : Walking α := do
  modify fun w => { w with path := w.path ++ [step] }
  let a ← visit
  modify fun w => { w with path := w.path.dropLast }
  return a

/-- Keep what was found, unless the log has grown on the way. -/
def unlessGrown (visit : Walking α) : Walking (Option α) := do
  let mark := (← get).log.mark
  let a ← visit
  if (← get).log.grownSince mark then return none else return some a

/-! ### Visits -/

/-- A visit to a child expression. -/
abbrev Visitor := Json → Walking (Option Expression)

variable (policy : Policy)

/-- Visit a member that must be there. -/
def required (name : String) (members : List (String × Json)) (visit : Json → Walking (Option α)) :
    Walking (Option α) :=
  descend (.field name) <|
    match Json.member? name members with
    | none => refuse (.missingField name)
    | some value => visit value

/-- Note the members in turn that are not declared. -/
def undeclaredOf (declared : List String) : List (String × Json) → Walking Unit
  | [] => return
  | (name, _) :: rest => do
    if !declared.contains name then
      descend (.field name) (report (.unexpectedField name))
    undeclaredOf declared rest

/-- Under a strict policy, note the members that are not declared. -/
def undeclared (declared : List String) (members : List (String × Json)) : Walking Unit :=
  if policy.strict then undeclaredOf declared members else return

/-- Visit items of an array in turn, from the number of the first. -/
def items (visit : Visitor) : (number : Nat) → List Json → Walking (List Expression)
  | _, [] => return []
  | number, item :: rest => do
    let found ← descend (.index number) (visit item)
    let others ← items visit (number + 1) rest
    return found.toList ++ others

/-- Visit the items of an array of expressions. -/
def elements (visit : Visitor) (values : List Json) : Walking (Option (List Expression)) :=
  unlessGrown (items visit 0 values)

/-- Visit a branch of a conditional. -/
def branch (visit : Visitor) : Json → Walking (Option (List Expression))
  | .array values =>
    if values.isEmpty && !policy.allowEmptyBranches then refuse .emptyBranch
    else elements visit values
  | found => refuse (.wrongSort .array found)

/-- Visit the second branch of a conditional, if there is one. -/
def elseBranch (visit : Visitor) (members : List (String × Json)) :
    Walking (Option (Option (List Expression))) :=
  match Json.member? "else" members with
  | none => return some none
  | some value => Option.map some <$> descend (.field "else") (branch policy visit value)

/-- Visit a conditional. -/
def conditional (visit : Visitor) (members : List (String × Json)) :
    Walking (Option Conditional) := do
  let condition ← required "if" members visit
  let thenBranch ← required "then" members (branch policy visit)
  let elseBranch ← elseBranch policy visit members
  undeclared policy Validation.conditionalFields members
  return do return ⟨← condition, ← thenBranch, ← elseBranch⟩

mutual

/-- Visit the value of a field. -/
def fieldValue (visit : Visitor) : FieldKind → Json → Walking (Option FieldValue)
  | .expression, value => Option.map .expression <$> visit value
  | .sequence length, .array values =>
    match length with
    | none => Option.map .sequence <$> elements visit values
    | some expected =>
      if values.length = expected then Option.map .sequence <$> elements visit values
      else refuse (.wrongLength expected values.length)
  | .sequence _, found => refuse (.wrongSort .array found)
  | .oneOf allowed, .string s =>
    if allowed.contains s then return some (.choice s) else refuse (.notAllowed s allowed)
  | .oneOf _, found => refuse (.wrongSort .string found)
  | .text, .string s => return some (.text s)
  | .text, found => refuse (.wrongSort .string found)
  | .identifier, .string s =>
    if isIdentifier s then return some (.text s) else refuse (.notIdentifier s)
  | .identifier, found => refuse (.wrongSort .identifier found)
  | .shape specs, .object members => do
    let found ← unlessGrown (fieldValues visit specs members)
    undeclared policy (specs.map (·.1)) members
    return found.map .shape
  | .shape _, found => refuse (.wrongSort .object found)
  | .optional inner, value => fieldValue visit inner value

/-- Visit the declared fields of an object in turn. -/
def fieldValues (visit : Visitor) :
    List (String × FieldKind) → List (String × Json) → Walking (List (String × FieldValue))
  | [], _ => return []
  | (name, kind) :: rest, members =>
    match Json.member? name members with
    | none => do
      if kind.isRequired then
        descend (.field name) (report (.missingField name))
      fieldValues visit rest members
    | some value => do
      let found ← Option.map (fun v => (name, v)) <$>
        descend (.field name) (fieldValue visit kind value)
      let others ← fieldValues visit rest members
      return found.toList ++ others

end

/-- Visit the declared fields of an object. -/
def fields (visit : Visitor) (specs : List (String × FieldKind)) (members : List (String × Json)) :
    Walking (Option (List (String × FieldValue))) :=
  unlessGrown (fieldValues policy visit specs members)

/-- Visit a call of a function of the catalog. -/
def call (visit : Visitor) (contract : Contract) (members : List (String × Json)) :
    Walking (Option Expression) := do
  let found ← fields policy visit contract.fields members
  undeclared policy ("function" :: contract.fieldNames) members
  return found.map (.call contract.name)

/-- Visit an object that should be an expression. -/
def object (visit : Visitor) (members : List (String × Json)) : Walking (Option Expression) :=
  match Json.member? "function" members with
  | none => descend (.field "function") (refuse (.missingField "function"))
  | some (.string name) =>
    if name = conditionalWord then
      Option.map (·.toExpression) <$> conditional policy visit members
    else
      match Catalog.find? name with
      | some contract => call policy visit contract members
      | none => refuse (.unknownFunction name)
  | some found => descend (.field "function") (refuse (.wrongSort .functionName found))

/-- Visit a node that is not nested too deeply. -/
def node (visit : Visitor) : Json → Walking (Option Expression)
  | .number n => return some (.number n)
  | .object members => object policy visit members
  | found => refuse (.wrongSort .expression found)

/-- Visit a node at a level, the children one level below. -/
def expression (level : Nat) : Visitor :=
  if policy.maxDepth < level then fun _ => refuse (.tooDeep policy.maxDepth)
  else node policy (expression (level + 1))
termination_by policy.maxDepth + 1 - level

/-- Visit the root, which must be a conditional. -/
def root (value : Json) : Walking (Option Conditional) :=
  match value with
  | .object members =>
    match Json.member? "function" members with
    | some (.string name) =>
      if name = conditionalWord then conditional policy (expression policy 2) members
      else refuse (.notConditional value)
    | _ => refuse (.notConditional value)
  | _ => refuse (.notConditional value)

/-- Visit a member that must be a string. -/
def string : Json → Walking (Option String)
  | .string s => return some s
  | found => refuse (.wrongSort .string found)

/-- Visit a whole document. -/
def strategy : Json → Walking (Option Strategy)
  | .object members => do
    let name ← required "name" members string
    let author ← required "author" members string
    let tree ← required "strategy" members (root policy)
    undeclared policy Validation.strategyFields members
    return do return ⟨← name, ← author, ← tree⟩
  | found => refuse (.notStrategy found)

/-! ### What a part of the walk leaves behind -/

/-- Wherever it starts, the part of the walk has the answer, and the path is the same
afterwards; the diagnostics, behind the path, come to the log. -/
def Leaves (visit : Walking α) (answer : α) (errors : List Diagnostic) : Prop :=
  ∀ w : Walker,
    visit.run w = (answer, ⟨w.path, ⟨w.log.entries ++ errors.map (·.behind w.path)⟩⟩)

/-- The part of the walk finds what the finding says. -/
def Performs (visit : Walking (Option α)) (f : Finding α) : Prop := Leaves visit f.value f.errors

theorem leaves_pure (a : α) : Leaves (pure a) a [] := by
  intro w
  rw [List.map_nil, List.append_nil]
  rfl

theorem Leaves.bind {visit : Walking α} {next : α → Walking β} {a : α} {b : β}
    {errors errors' : List Diagnostic} (hvisit : Leaves visit a errors)
    (hnext : Leaves (next a) b errors') : Leaves (visit >>= next) b (errors ++ errors') := by
  intro w
  rw [StateT.run_bind, hvisit w]
  show (next a).run _ = _
  rw [hnext, List.map_append, List.append_assoc]

/-- What is made of the answer adds nothing to the log. -/
theorem Leaves.thenReturn {visit : Walking α} {a : α} {errors : List Diagnostic} (g : α → β)
    (h : Leaves visit a errors) :
    Leaves (do
        let a ← visit
        return g a) (g a) errors := by
  have hreturn : Leaves (visit >>= fun a => pure (g a)) (g a) (errors ++ []) :=
    h.bind (leaves_pure (g a))
  rwa [List.append_nil] at hreturn

theorem Leaves.map {visit : Walking α} {a : α} {errors : List Diagnostic} (g : α → β)
    (h : Leaves visit a errors) : Leaves (g <$> visit) (g a) errors := by
  intro w
  rw [StateT.run_map, h w]
  rfl

theorem leaves_report (defect : Defect) : Leaves (report defect) () [defect.diagnostic] := by
  intro w
  have hbehind : defect.diagnostic.behind w.path = ⟨w.path, defect.kind, defect.message⟩ := by
    rw [Diagnostic.behind, Defect.diagnostic, List.append_nil]
  rw [List.map_singleton, hbehind]
  rfl

theorem performs_refuse (defect : Defect) :
    Performs (refuse defect : Walking (Option α)) (.reject defect) :=
  (leaves_report defect).bind (leaves_pure none)

theorem leaves_descend {visit : Walking α} {a : α} {errors : List Diagnostic} (step : Step)
    (h : Leaves visit a errors) :
    Leaves (descend step visit) a (errors.map (·.under step)) := by
  intro w
  have hbelow : (descend step visit).run w =
      (do
        let (a, below) ← visit.run ⟨w.path ++ [step], w.log⟩
        return (a, ⟨below.path.dropLast, below.log⟩) : Id (α × Walker)) := rfl
  have hpaths : (errors.map (·.under step)).map (·.behind w.path)
      = errors.map (·.behind (w.path ++ [step])) := by
    simp [Function.comp_def, Diagnostic.behind, Diagnostic.under]
  rw [hbelow, h, hpaths]
  show (a, (⟨(w.path ++ [step]).dropLast, _⟩ : Walker)) = _
  rw [List.dropLast_concat]

/-- A log has grown since a mark if something stands behind the entries of then. -/
theorem grownSince_append (log : Diagnostic.Log) (more : List Diagnostic) :
    (Diagnostic.Log.mk (log.entries ++ more)).grownSince log.mark = !more.isEmpty := by
  cases more <;> simp [Diagnostic.Log.grownSince, Diagnostic.Log.mark, Diagnostic.Log.size]

theorem leaves_unlessGrown {visit : Walking α} {a : α} {errors : List Diagnostic}
    (h : Leaves visit a errors) :
    Leaves (unlessGrown visit) (if errors.isEmpty then some a else none) errors := by
  intro w
  have hrun : (unlessGrown visit).run w =
      (do
        let (a, after) ← visit.run w
        (if after.log.grownSince w.log.mark then return none else return some a :
          Walking (Option α)).run after : Id (Option α × Walker)) := rfl
  rw [hrun, h]
  show StateT.run (if Diagnostic.Log.grownSince _ _ = true then _ else _) _ = _
  rw [grownSince_append, List.isEmpty_map]
  cases errors.isEmpty <;> rfl

/-! ### What the visits leave behind -/

theorem performs_accept (a : α) : Performs (pure (some a)) (.accept a) := leaves_pure (some a)

namespace Performs

variable {visit : Walking (Option α)} {f : Finding α}

theorem map (g : α → β) (h : Performs visit f) : Performs (Option.map g <$> visit) (f.map g) :=
  Leaves.map (Option.map g) h

theorem descend (step : Step) (h : Performs visit f) :
    Performs (Walking.descend step visit) (f.under step) :=
  leaves_descend step h

end Performs

/-- What is found in turn, as far as there is something. -/
def Collects (visit : Walking (List α)) (fs : List (Finding α)) : Prop :=
  Leaves visit (fs.filterMap (·.value)) (fs.flatMap (·.errors))

namespace Collects

variable {visit : Walking (Option α)} {f : Finding α} {more : Walking (List α)}
  {fs : List (Finding α)}

theorem nil : Collects (pure []) ([] : List (Finding α)) := leaves_pure []

theorem cons (h : Performs visit f) (hmore : Collects more fs) :
    Collects (do
        let found ← visit
        let others ← more
        return found.toList ++ others) (f :: fs) := by
  have hvalues : (f :: fs).filterMap (·.value) = f.value.toList ++ fs.filterMap (·.value) := by
    rw [List.filterMap_cons]
    cases f.value <;> rfl
  unfold Collects
  rw [hvalues, List.flatMap_cons]
  exact Leaves.bind h (Leaves.thenReturn (f.value.toList ++ ·) hmore)

theorem unlessGrown (h : Collects more fs) : Performs (Walking.unlessGrown more) (.gather fs) :=
  leaves_unlessGrown h

end Collects

section visits

variable {policy : Policy} {visit : Visitor} {finding : Validation.Visitor}

theorem performs_required (name : String) (members : List (String × Json))
    {visit : Json → Walking (Option α)} {finding : Json → Finding α}
    (h : ∀ value, Performs (visit value) (finding value)) :
    Performs (required name members visit)
      (Validation.member name members (Validation.missing name) finding) := by
  unfold required Validation.member Validation.missing
  cases Json.member? name members with
  | none => exact (performs_refuse (.missingField name)).descend (.field name)
  | some value => exact (h value).descend (.field name)

theorem leaves_undeclaredOf (declared : List String) (members : List (String × Json)) :
    Leaves (undeclaredOf declared members) ()
      ((members.filter fun m => !declared.contains m.1).map fun m =>
        (Defect.unexpectedField m.1).diagnostic.under (.field m.1)) := by
  induction members with
  | nil => exact leaves_pure ()
  | cons m rest ih =>
    obtain ⟨name, value⟩ := m
    rw [undeclaredOf, List.filter_cons]
    dsimp only
    split
    case isTrue =>
      exact (leaves_descend (.field name) (leaves_report (.unexpectedField name))).bind ih
    case isFalse => exact ih

theorem leaves_undeclared (declared : List String) (members : List (String × Json)) :
    Leaves (undeclared policy declared members) ()
      (Validation.undeclared policy declared members) := by
  unfold undeclared Validation.undeclared
  split
  case isTrue => exact leaves_undeclaredOf declared members
  case isFalse => exact leaves_pure ()

/-- Members that are not declared are noted when the value is settled. -/
theorem Performs.followedBy {visit : Walking (Option α)} {f : Finding α} (declared : List String)
    (members : List (String × Json)) (g : α → β) (h : Performs visit f) :
    Performs (do
        let found ← visit
        undeclared policy declared members
        return found.map g)
      ((f.map g).followedBy (Validation.undeclared policy declared members)) :=
  Leaves.bind h (Leaves.thenReturn (fun _ => f.value.map g) (leaves_undeclared declared members))

/-- Three parts in turn, which are all needed for the value. -/
theorem Performs.three {γ δ : Type} {visitF : Walking (Option α)} {visitG : Walking (Option β)}
    {visitH : Walking (Option γ)} {f : Finding α} {g : Finding β} {h : Finding γ}
    (hf : Performs visitF f) (hg : Performs visitG g) (hh : Performs visitH h)
    (declared : List String) (members : List (String × Json)) (k : α → β → γ → δ) :
    Performs (do
        let a ← visitF
        let b ← visitG
        let c ← visitH
        undeclared policy declared members
        return do return k (← a) (← b) (← c))
      (((f.both (g.both h)).followedBy (Validation.undeclared policy declared members)).map
        fun (a, b, c) => k a b c) := by
  have hvalue : (do return k (← f.value) (← g.value) (← h.value))
      = ((f.both (g.both h)).map fun (a, b, c) => k a b c).value := by
    unfold Finding.both
    cases f.value with
    | none => rfl
    | some a =>
      cases g.value with
      | none => rfl
      | some b => cases h.value <;> rfl
  have herrors : f.errors ++ (g.errors ++ h.errors)
        ++ Validation.undeclared policy declared members
      = f.errors ++ (g.errors ++ (h.errors ++
        (Validation.undeclared policy declared members ++ []))) := by simp
  show Leaves _ _ (f.errors ++ (g.errors ++ h.errors)
    ++ Validation.undeclared policy declared members)
  rw [herrors, Finding.value_map, Finding.value_followedBy, ← Finding.value_map, ← hvalue]
  refine Leaves.bind hf ?_
  refine Leaves.bind hg ?_
  refine Leaves.bind hh ?_
  exact Leaves.bind (leaves_undeclared declared members) (leaves_pure _)

section children

variable (hvisit : ∀ value, Performs (visit value) (finding value))

include hvisit

theorem collects_items (number : Nat) (values : List Json) :
    Collects (items visit number values)
      (values.mapIdx fun i value => (finding value).under (.index (number + i))) := by
  induction values generalizing number with
  | nil => exact .nil
  | cons value rest ih =>
    have hshift : (fun i (value : Json) => (finding value).under (.index (number + 1 + i)))
        = fun i value => (finding value).under (.index (number + (i + 1))) := by
      funext i value
      rw [Nat.add_assoc, Nat.add_comm 1 i]
    have hrest := ih (number + 1)
    rw [hshift] at hrest
    rw [items, List.mapIdx_cons]
    exact .cons ((hvisit value).descend (.index number)) hrest

theorem performs_elements (values : List Json) :
    Performs (elements visit values) (Validation.expressions finding values) := by
  have hitems := collects_items hvisit 0 values
  simp only [Nat.zero_add] at hitems
  exact hitems.unlessGrown

theorem performs_branch (value : Json) :
    Performs (branch policy visit value) (Validation.branch policy finding value) := by
  cases value with
  | array values =>
    unfold branch Validation.branch
    dsimp only
    split
    · exact performs_refuse .emptyBranch
    · exact performs_elements hvisit values
  | _ => exact performs_refuse (.wrongSort .array _)

theorem performs_elseBranch (members : List (String × Json)) :
    Performs (elseBranch policy visit members)
      (Validation.member "else" members (.accept none) fun value =>
        (Validation.branch policy finding value).map some) := by
  unfold elseBranch Validation.member
  cases Json.member? "else" members with
  | none => exact performs_accept none
  | some value => exact ((performs_branch hvisit value).descend (.field "else")).map some

theorem performs_conditional (members : List (String × Json)) :
    Performs (conditional policy visit members)
      (Validation.conditional policy finding members) := by
  unfold conditional Validation.conditional
  exact (performs_required "if" members hvisit).three
    (performs_required "then" members (performs_branch hvisit)) (performs_elseBranch hvisit members)
    Validation.conditionalFields members Conditional.mk

end children

mutual

theorem performs_fieldValue (hvisit : ∀ value, Performs (visit value) (finding value)) :
    ∀ (kind : FieldKind) (value : Json),
      Performs (fieldValue policy visit kind value)
        (Validation.fieldValue policy finding kind value)
  | .expression, value => by
    rw [fieldValue, Validation.fieldValue]
    exact (hvisit value).map FieldValue.expression
  | .sequence length, value => by
    cases value with
    | array values =>
      cases length with
      | none => exact (performs_elements hvisit values).map FieldValue.sequence
      | some expected =>
        show Performs (if values.length = expected then _ else _)
          (if values.length = expected then _ else _)
        split
        · exact (performs_elements hvisit values).map FieldValue.sequence
        · exact performs_refuse (.wrongLength expected values.length)
    | _ => exact performs_refuse (.wrongSort .array _)
  | .oneOf allowed, value => by
    cases value with
    | string s =>
      rw [fieldValue, Validation.fieldValue]
      split
      · exact performs_accept (FieldValue.choice s)
      · exact performs_refuse (.notAllowed s allowed)
    | _ => exact performs_refuse (.wrongSort .string _)
  | .text, value => by
    cases value with
    | string s => exact performs_accept (FieldValue.text s)
    | _ => exact performs_refuse (.wrongSort .string _)
  | .identifier, value => by
    cases value with
    | string s =>
      rw [fieldValue, Validation.fieldValue]
      split
      · exact performs_accept (FieldValue.text s)
      · exact performs_refuse (.notIdentifier s)
    | _ => exact performs_refuse (.wrongSort .identifier _)
  | .shape specs, value => by
    cases value with
    | object members =>
      rw [fieldValue, Validation.fieldValue]
      exact (collects_fieldValues hvisit specs members).unlessGrown.followedBy _ members
        FieldValue.shape
    | _ => exact performs_refuse (.wrongSort .object _)
  | .optional inner, value => by
    rw [fieldValue, Validation.fieldValue]
    exact performs_fieldValue hvisit inner value

theorem collects_fieldValues (hvisit : ∀ value, Performs (visit value) (finding value)) :
    ∀ (specs : List FieldSpec) (members : List (String × Json)),
      Collects (fieldValues policy visit specs members)
        (Validation.fieldValues policy finding specs members)
  | [], _ => by
    rw [fieldValues, Validation.fieldValues]
    exact .nil
  | (name, kind) :: rest, members => by
    have hrest := collects_fieldValues hvisit rest members
    rw [fieldValues, Validation.fieldValues]
    cases Json.member? name members with
    | none =>
      dsimp only
      split
      · exact (leaves_descend (.field name) (leaves_report (.missingField name))).bind hrest
      · exact hrest
    | some value =>
      exact .cons (((performs_fieldValue hvisit kind value).descend (.field name)).map _) hrest

end

section nodes

variable (hvisit : ∀ value, Performs (visit value) (finding value))

include hvisit

theorem performs_call (contract : Contract) (members : List (String × Json)) :
    Performs (call policy visit contract members)
      (Validation.call policy finding contract members) :=
  (collects_fieldValues hvisit contract.fields members).unlessGrown.followedBy _ members
    (Expression.call contract.name)

theorem performs_object (members : List (String × Json)) :
    Performs (object policy visit members) (Validation.object policy finding members) := by
  unfold object Validation.object
  cases Json.member? "function" members with
  | none => exact (performs_refuse (.missingField "function")).descend (.field "function")
  | some marker =>
    cases marker with
    | string name =>
      dsimp only
      split
      · exact (performs_conditional hvisit members).map Conditional.toExpression
      · cases Catalog.find? name with
        | none => exact performs_refuse (.unknownFunction name)
        | some contract => exact performs_call hvisit contract members
    | _ => exact (performs_refuse (.wrongSort .functionName _)).descend (.field "function")

theorem performs_node (value : Json) :
    Performs (node policy visit value) (Validation.node policy finding value) := by
  cases value with
  | number n => exact performs_accept (Expression.number n)
  | object members => exact performs_object hvisit members
  | _ => exact performs_refuse (.wrongSort .expression _)

end nodes

/-- The walk goes as many levels down as the budget allows. -/
theorem performs_expression (policy : Policy) (level : Nat) (value : Json) :
    Performs (expression policy level value)
      (Validation.expression policy (policy.maxDepth + 1 - level) value) := by
  rw [expression]
  by_cases hdeep : policy.maxDepth < level
  case pos =>
    have hnone : policy.maxDepth + 1 - level = 0 := by omega
    rw [if_pos hdeep, hnone]
    exact performs_refuse (.tooDeep policy.maxDepth)
  case neg =>
    have hsome : policy.maxDepth + 1 - level = policy.maxDepth + 1 - (level + 1) + 1 := by omega
    rw [if_neg hdeep, hsome]
    exact performs_node (performs_expression policy (level + 1)) value
termination_by policy.maxDepth + 1 - level

theorem performs_root (value : Json) :
    Performs (root policy value) (Validation.root policy value) := by
  have hexpression := performs_expression policy 2
  have hlevel : policy.maxDepth + 1 - 2 = policy.maxDepth - 1 := by omega
  rw [hlevel] at hexpression
  cases value with
  | object members =>
    unfold root Validation.root
    dsimp only
    cases Json.member? "function" members with
    | none => exact performs_refuse (.notConditional _)
    | some marker =>
      cases marker with
      | string name =>
        dsimp only
        split
        · exact performs_conditional hexpression members
        · exact performs_refuse (.notConditional _)
      | _ => exact performs_refuse (.notConditional _)
  | _ => exact performs_refuse (.notConditional _)

theorem performs_string (value : Json) : Performs (string value) (Validation.string value) := by
  cases value with
  | string s => exact performs_accept s
  | _ => exact performs_refuse (.wrongSort .string _)

theorem performs_strategy (document : Json) :
    Performs (strategy policy document) (Validation.strategy policy document) := by
  cases document with
  | object members =>
    unfold strategy Validation.strategy
    exact (performs_required "name" members performs_string).three
      (performs_required "author" members performs_string)
      (performs_required "strategy" members performs_root) Validation.strategyFields members
      Strategy.mk
  | _ => exact performs_refuse (.notStrategy _)

end visits

end Walking

end StrategyDoc
