import StrategyDoc.Catalog.Functions
import StrategyDoc.Policy.Basic
import StrategyDoc.Strategy.Basic
import StrategyDoc.Validation.Finding

/-! # Validation

A document is visited from its root, member by member in the order of the contracts, and
every defect is noted.  `expression` visits a node with a budget of levels: a node without
budget is cut off and not looked into.  The visits to the parts of a node take the visit to
its child expressions as an argument, so the recursion is on the budget alone. -/

namespace StrategyDoc.Validation

/-- A visit to a child expression. -/
abbrev Visitor := Json → Finding Expression

variable (policy : Policy)

/-! ### Members -/

/-- Visit the member of a name if it is there; otherwise `absent`. -/
def member {α : Type} (name : String) (members : List (String × Json)) (absent : Finding α)
    (visit : Json → Finding α) : Finding α :=
  match Json.member? name members with
  | none => absent
  | some value => (visit value).under (.field name)

/-- A required member that is absent. -/
def missing {α : Type} (name : String) : Finding α :=
  (Finding.reject (.missingField name)).under (.field name)

/-- Under a strict policy, the diagnostics of the members outside a contract. -/
def undeclared (declared : List String) (members : List (String × Json)) : List Diagnostic :=
  if policy.strict then
    (members.filter fun m => !declared.contains m.1).map fun m =>
      (Defect.unexpectedField m.1).diagnostic.under (.field m.1)
  else []

/-! ### Parts of a node -/

/-- Visit the items of an array of expressions. -/
def expressions (visit : Visitor) (items : List Json) : Finding (List Expression) :=
  Finding.gather (items.mapIdx fun i item => (visit item).under (.index i))

/-- Visit a branch of a conditional. -/
def branch (visit : Visitor) : Json → Finding (List Expression)
  | .array items =>
    if items.isEmpty && !policy.allowEmptyBranches then .reject .emptyBranch
    else expressions visit items
  | found => .reject (.wrongSort .array found)

/-- The members of a conditional. -/
def conditionalFields : List String := ["function", "if", "then", "else"]

/-- Visit a conditional. -/
def conditional (visit : Visitor) (members : List (String × Json)) : Finding Conditional :=
  let condition := member "if" members (missing "if") visit
  let thenBranch := member "then" members (missing "then") (branch policy visit)
  let elseBranch :=
    member "else" members (.accept none) fun value => (branch policy visit value).map some
  let parts := (condition.both (thenBranch.both elseBranch)).followedBy
    (undeclared policy conditionalFields members)
  parts.map fun (condition, thenBranch, elseBranch) => ⟨condition, thenBranch, elseBranch⟩

mutual

/-- Visit the value of a field. -/
def fieldValue (visit : Visitor) : FieldKind → Json → Finding FieldValue
  | .expression, value => (visit value).map .expression
  | .sequence length, .array items =>
    match length with
    | none => (expressions visit items).map .sequence
    | some expected =>
      if items.length = expected then (expressions visit items).map .sequence
      else .reject (.wrongLength expected items.length)
  | .sequence _, found => .reject (.wrongSort .array found)
  | .oneOf allowed, .string s =>
    if allowed.contains s then .accept (.choice s) else .reject (.notAllowed s allowed)
  | .oneOf _, found => .reject (.wrongSort .string found)
  | .text, .string s => .accept (.text s)
  | .text, found => .reject (.wrongSort .string found)
  | .identifier, .string s =>
    if isIdentifier s then .accept (.text s) else .reject (.notIdentifier s)
  | .identifier, found => .reject (.wrongSort .identifier found)
  | .shape specs, .object members =>
    ((Finding.gather (fieldValues visit specs members)).map .shape).followedBy
      (undeclared policy (specs.map (·.1)) members)
  | .shape _, found => .reject (.wrongSort .object found)
  | .optional inner, value => fieldValue visit inner value

/-- Visit the declared fields of an object in order; an absent optional field is skipped. -/
def fieldValues (visit : Visitor) :
    List (String × FieldKind) → List (String × Json) → List (Finding (String × FieldValue))
  | [], _ => []
  | (name, kind) :: rest, members =>
    match Json.member? name members with
    | none =>
      if kind.isRequired then missing name :: fieldValues visit rest members
      else fieldValues visit rest members
    | some value =>
      ((fieldValue visit kind value).map fun v => (name, v)).under (.field name)
        :: fieldValues visit rest members

end

/-- Visit a call of a function of the catalog. -/
def call (visit : Visitor) (contract : Contract) (members : List (String × Json)) :
    Finding Expression :=
  ((Finding.gather (fieldValues policy visit contract.fields members)).map
      (Expression.call contract.name)).followedBy
    (undeclared policy ("function" :: contract.fieldNames) members)

/-! ### Nodes -/

/-- Visit an object that should be an expression. -/
def object (visit : Visitor) (members : List (String × Json)) : Finding Expression :=
  match Json.member? "function" members with
  | none => missing "function"
  | some (.string name) =>
    if name = conditionalWord then
      (conditional policy visit members).map (·.toExpression)
    else
      match Catalog.find? name with
      | some contract => call policy visit contract members
      | none => .reject (.unknownFunction name)
  | some found => (Finding.reject (.wrongSort .functionName found)).under (.field "function")

/-- Visit a node within the budget. -/
def node (visit : Visitor) : Json → Finding Expression
  | .number n => .accept (.number n)
  | .object members => object policy visit members
  | found => .reject (.wrongSort .expression found)

/-- Visit a node that may have at most `budget` levels. -/
def expression : (budget : Nat) → Visitor
  | 0 => fun _ => .reject (.tooDeep policy.maxDepth)
  | budget + 1 => node policy (expression budget)

/-! ### Documents -/

/-- The members of a strategy document. -/
def strategyFields : List String := ["name", "author", "strategy"]

/-- Visit a member that must be a string. -/
def string : Json → Finding String
  | .string s => .accept s
  | found => .reject (.wrongSort .string found)

/-- Visit the root, which must be a conditional.  The root is the first level, whatever the
budget. -/
def root (value : Json) : Finding Conditional :=
  match value with
  | .object members =>
    match Json.member? "function" members with
    | some (.string name) =>
      if name = conditionalWord then
        conditional policy (expression policy (policy.maxDepth - 1)) members
      else .reject (.notConditional value)
    | _ => .reject (.notConditional value)
  | _ => .reject (.notConditional value)

/-- Visit a whole document. -/
def strategy : Json → Finding Strategy
  | .object members =>
    let name := member "name" members (missing "name") string
    let author := member "author" members (missing "author") string
    let tree := member "strategy" members (missing "strategy") (root policy)
    let parts := (name.both (author.both tree)).followedBy
      (undeclared policy strategyFields members)
    parts.map fun (name, author, tree) => ⟨name, author, tree⟩
  | found => .reject (.notStrategy found)

end Validation

/-- The strategy of a document, or everything that is wrong with the document. -/
def Strategy.ofJson? (policy : Policy) (document : Json) : Except (List Diagnostic) Strategy :=
  (Validation.strategy policy document).result

/-- The expression of a JSON value, or everything that is wrong with the value. -/
def Expression.ofJson? (policy : Policy) (value : Json) : Except (List Diagnostic) Expression :=
  (Validation.expression policy policy.maxDepth value).result

end StrategyDoc
