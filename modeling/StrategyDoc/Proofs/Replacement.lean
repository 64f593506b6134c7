import StrategyDoc.Path
import StrategyDoc.Strategy.Basic

/-! # Replacing one part

`Json.replaceAt path new` puts another value in the place that a path leads to; what stands
elsewhere stays as it is (`Json.member?_modifyMember_of_ne`).  `Strategy.replaceAt` does the
same with an expression of a strategy, at the path of the value that it is read from. -/

namespace StrategyDoc

/-! ### Values -/

namespace Json

/-- Change the value under a name, the first if the name is repeated. -/
def modifyMember (name : String) (f : Json → Json) : List (String × Json) → List (String × Json)
  | [] => []
  | (key, value) :: rest =>
    if key = name then (key, f value) :: rest else (key, value) :: modifyMember name f rest

/-- Put a value in the place that a path leads to. -/
def replaceAt : Json → Path → (new : Json) → Json
  | _, [], new => new
  | .object members, .field name :: rest, new =>
    .object (modifyMember name (·.replaceAt rest new) members)
  | .array items, .index i :: rest, new => .array (items.modify i (·.replaceAt rest new))
  | value, _ :: _, _ => value

section members

variable {name key : String} {f : Json → Json} {members : List (String × Json)}

theorem member?_modifyMember :
    member? name (modifyMember name f members) = (member? name members).map f := by
  induction members with
  | nil => rfl
  | cons m members ih =>
      obtain ⟨first, value⟩ := m
      rw [modifyMember]
      by_cases hfirst : first = name
      · rw [if_pos hfirst, member?_cons, member?_cons, if_pos hfirst, if_pos hfirst]
        rfl
      · rw [if_neg hfirst, member?_cons, member?_cons, if_neg hfirst, if_neg hfirst, ih]

theorem member?_modifyMember_of_ne (hkey : key ≠ name) :
    member? key (modifyMember name f members) = member? key members := by
  induction members with
  | nil => rfl
  | cons m members ih =>
      obtain ⟨first, value⟩ := m
      rw [modifyMember]
      by_cases hfirst : first = name
      · rw [if_pos hfirst, member?_cons, member?_cons, if_neg (hfirst ▸ hkey.symm),
          if_neg (hfirst ▸ hkey.symm)]
      · rw [if_neg hfirst, member?_cons, member?_cons, ih]

theorem map_fst_modifyMember : (modifyMember name f members).map (·.1) = members.map (·.1) := by
  induction members with
  | nil => rfl
  | cons m members ih =>
      obtain ⟨first, value⟩ := m
      rw [modifyMember]
      split
      · rfl
      · rw [List.map_cons, List.map_cons, ih]

theorem modifyMember_eq_self {value : Json} (h : member? name members = some value)
    (hf : f value = value) : modifyMember name f members = members := by
  induction members with
  | nil => rfl
  | cons m members ih =>
      obtain ⟨first, other⟩ := m
      rw [member?_cons] at h
      rw [modifyMember]
      by_cases hfirst : first = name
      · rw [if_pos hfirst] at h
        cases h
        rw [if_pos hfirst, hf]
      · rw [if_neg hfirst] at h
        rw [if_neg hfirst, ih h]

end members

/-- The value that stands in a place can be put there. -/
theorem replaceAt_self {value old : Json} {path : Path} (h : value.at? path = some old) :
    value.replaceAt path old = value := by
  induction path generalizing value with
  | nil =>
      rw [at?_nil] at h
      cases h
      rw [replaceAt]
  | cons step rest ih =>
      rw [at?_cons, Option.bind_eq_some_iff] at h
      obtain ⟨inner, hinner, h⟩ := h
      unfold step? at hinner
      split at hinner
      · rw [replaceAt, modifyMember_eq_self hinner (ih h)]
      · rename_i items i
        rw [replaceAt]
        refine congrArg array (List.ext_getElem? fun j => ?_)
        by_cases hj : i = j
        · rw [← hj, List.getElem?_modify_eq, hinner]
          exact congrArg some (ih h)
        · rw [List.getElem?_modify_ne _ _ hj]
      · cases hinner

/-- What was put in the place of a value is found there. -/
theorem at?_replaceAt {new value old : Json} {path : Path} (h : value.at? path = some old) :
    (value.replaceAt path new).at? path = some new := by
  induction path generalizing value with
  | nil => rw [replaceAt, at?_nil]
  | cons step rest ih =>
      rw [at?_cons, Option.bind_eq_some_iff] at h
      obtain ⟨inner, hinner, h⟩ := h
      rw [at?_cons]
      unfold step? at hinner
      split at hinner
      · rw [replaceAt, step?, member?_modifyMember, hinner]
        exact ih h
      · rw [replaceAt, step?, List.getElem?_modify_eq, hinner]
        exact ih h
      · cases hinner

end Json

/-! ### Strategies -/

namespace FieldValue

/-- Change the value of a named field, the first if the name is repeated. -/
def modifyField (name : String) (f : FieldValue → FieldValue) :
    List (String × FieldValue) → List (String × FieldValue)
  | [] => []
  | (key, value) :: rest =>
    if key = name then (key, f value) :: rest else (key, value) :: modifyField name f rest

/-- The part that a step leads to. -/
def step? : FieldValue → Step → Option FieldValue
  | expression (.call _ fields), .field name => find? name fields
  | expression (.conditional condition thenBranch elseBranch), .field name =>
    if name = "if" then some (expression condition)
    else if name = "then" then some (sequence thenBranch)
    else if name = "else" then elseBranch.map sequence
    else none
  | sequence items, .index i => items[i]?.map expression
  | shape fields, .field name => find? name fields
  | _, _ => none

/-- The part that a path leads to. -/
def at? (v : FieldValue) : Path → Option FieldValue
  | [] => some v
  | step :: rest => (v.step? step).bind (·.at? rest)

/-- Change the part that a step leads to.  Where an expression or some expressions are needed,
a change to anything else counts for nothing. -/
def modifyStep : FieldValue → Step → (f : FieldValue → FieldValue) → FieldValue
  | expression (.call function fields), .field name, f =>
    expression (.call function (modifyField name f fields))
  | expression (.conditional condition thenBranch elseBranch), .field name, f =>
    expression (
      if name = "if" then
        .conditional ((f (expression condition)).expression?.getD condition) thenBranch elseBranch
      else if name = "then" then
        .conditional condition ((f (sequence thenBranch)).sequence?.getD thenBranch) elseBranch
      else if name = "else" then
        .conditional condition thenBranch
          (elseBranch.map fun items => (f (sequence items)).sequence?.getD items)
      else .conditional condition thenBranch elseBranch)
  | sequence items, .index i, f =>
    sequence (items.modify i fun item => (f (expression item)).expression?.getD item)
  | shape fields, .field name, f => shape (modifyField name f fields)
  | v, _, _ => v

/-- Put an expression in the place that a path leads to. -/
def replaceAt : FieldValue → Path → (new : Expression) → FieldValue
  | _, [], new => expression new
  | v, step :: rest, new => v.modifyStep step (·.replaceAt rest new)

end FieldValue

namespace Strategy

/-- The expression that a path of the document leads to. -/
def at? (s : Strategy) : Path → Option Expression
  | .field "strategy" :: rest =>
    ((FieldValue.expression s.root.toExpression).at? rest).bind (·.expression?)
  | _ => none

/-- Put an expression in the place that a path of the document leads to.  The root stays a
conditional. -/
def replaceAt (s : Strategy) (path : Path) (new : Expression) : Strategy :=
  match path with
  | .field "strategy" :: rest =>
    match (FieldValue.expression s.root.toExpression).replaceAt rest new with
    | .expression (.conditional condition thenBranch elseBranch) =>
      { s with root := ⟨condition, thenBranch, elseBranch⟩ }
    | _ => s
  | _ => s

theorem replaceAt_eq {s : Strategy} {path : Path} {new : Expression} {c : Conditional}
    (h : (FieldValue.expression s.root.toExpression).replaceAt path new
      = .expression c.toExpression) :
    s.replaceAt (.field "strategy" :: path) new = { s with root := c } := by
  unfold replaceAt
  simp only [h]
  rfl

end Strategy

end StrategyDoc
