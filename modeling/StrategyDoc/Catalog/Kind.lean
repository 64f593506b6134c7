/-! # Field kinds

The contract of a function lists its fields in order, each with a kind that says what may
stand there.  A field is optional if its kind is wrapped in `optional`. -/

namespace StrategyDoc

/-- What may stand in a field. -/
inductive FieldKind where
  /-- One expression. -/
  | expression
  /-- An array of expressions, of an exact length if one is given. -/
  | sequence (length : Option Nat)
  /-- One of some strings. -/
  | oneOf (allowed : List String)
  /-- Any string. -/
  | text
  /-- A string that names a variable. -/
  | identifier
  /-- An object with fields of its own. -/
  | shape (fields : List (String × FieldKind))
  /-- What the inner kind allows, or nothing. -/
  | optional (inner : FieldKind)

/-- A field of a contract: its name and kind. -/
abbrev FieldSpec := String × FieldKind

namespace FieldKind

/-- The kind without its `optional` wrappers. -/
def bare : FieldKind → FieldKind
  | optional inner => inner.bare
  | kind => kind

/-- The field must be present. -/
def isRequired : FieldKind → Bool
  | optional _ => false
  | _ => true

@[simp] theorem bare_optional (inner : FieldKind) : (optional inner).bare = inner.bare := rfl

mutual

/-- A kind in words. -/
def describe : FieldKind → String
  | expression => "expression"
  | sequence none => "[expression, ...]"
  | sequence (some length) => s!"[expression; {length}]"
  | oneOf allowed => "one of " ++ "|".intercalate allowed
  | text => "string"
  | identifier => "identifier"
  | shape fields => "\x7b" ++ ", ".intercalate (describeFields fields) ++ "\x7d"
  | optional inner => "optional " ++ describe inner

/-- Fields in words. -/
def describeFields : List (String × FieldKind) → List String
  | [] => []
  | (name, kind) :: rest => (name ++ ": " ++ describe kind) :: describeFields rest

end

end FieldKind

/-! ### Variable names -/

/-- A letter of the Latin alphabet or an underscore. -/
def isNameStart (c : Char) : Bool := c.isAlpha || c == '_'

/-- A character of a variable name after the first. -/
def isNamePart (c : Char) : Bool := c.isAlphanum || c == '_'

/-- A variable name: a letter or underscore, followed by letters, digits and underscores. -/
def isIdentifier (s : String) : Bool :=
  match s.toList with
  | [] => false
  | first :: rest => isNameStart first && rest.all isNamePart

end StrategyDoc
