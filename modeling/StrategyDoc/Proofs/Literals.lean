import StrategyDoc.Proofs.Conformance
import StrategyDoc.Proofs.WrittenText

/-! # The literals of a strategy

What holds of every number in a document holds of every number in the strategy that it
represents (`DocumentRepresents.allLiterals`).  What holds of every number in a strategy holds
of every number in the JSON value of the strategy (`Strategy.allNumbers_toJson`), since
nothing else is written as a number.

If the JSON value of a strategy still represents it after its numbers have been replaced, then
each of them has been replaced by itself (`DocumentRepresents.allLiterals_of_reread`). -/

namespace StrategyDoc

mutual

/-- Every number in the expression has the property. -/
def Expression.AllLiterals (p : Json.Number → Prop) : Expression → Prop
  | .number n => p n
  | .call _ fields => FieldValue.AllLiteralsOfFields p fields
  | .conditional condition thenBranch none =>
    condition.AllLiterals p ∧ Expression.AllLiteralsOfAll p thenBranch
  | .conditional condition thenBranch (some elseBranch) =>
    condition.AllLiterals p ∧ Expression.AllLiteralsOfAll p thenBranch
      ∧ Expression.AllLiteralsOfAll p elseBranch

def Expression.AllLiteralsOfAll (p : Json.Number → Prop) : List Expression → Prop
  | [] => True
  | e :: rest => e.AllLiterals p ∧ Expression.AllLiteralsOfAll p rest

def FieldValue.AllLiterals (p : Json.Number → Prop) : FieldValue → Prop
  | .expression e => e.AllLiterals p
  | .sequence items => Expression.AllLiteralsOfAll p items
  | .choice _ => True
  | .text _ => True
  | .shape fields => FieldValue.AllLiteralsOfFields p fields

def FieldValue.AllLiteralsOfFields (p : Json.Number → Prop) : List (String × FieldValue) → Prop
  | [] => True
  | (_, value) :: rest => value.AllLiterals p ∧ FieldValue.AllLiteralsOfFields p rest

end

/-- Every number in the strategy has the property. -/
def Strategy.AllLiterals (p : Json.Number → Prop) (s : Strategy) : Prop :=
  s.root.toExpression.AllLiterals p

section written

variable {p : Json.Number → Prop}

mutual

theorem Expression.allNumbers_toJson : ∀ {e : Expression}, e.AllLiterals p →
    e.toJson.AllNumbers p
  | .number _, h => h
  | .call _ _, h => ⟨trivial, FieldValue.allNumbers_membersOf h⟩
  | .conditional _ _ none, ⟨hcondition, hthen⟩ =>
      ⟨trivial, Expression.allNumbers_toJson hcondition, Expression.allNumbers_itemsOf hthen,
        trivial⟩
  | .conditional _ _ (some _), ⟨hcondition, hthen, helse⟩ =>
      ⟨trivial, Expression.allNumbers_toJson hcondition, Expression.allNumbers_itemsOf hthen,
        Expression.allNumbers_itemsOf helse, trivial⟩

theorem Expression.allNumbers_itemsOf : ∀ {es : List Expression},
    Expression.AllLiteralsOfAll p es → Json.AllNumbersOfItems p (Expression.itemsOf es)
  | [], _ => trivial
  | _ :: _, ⟨he, hes⟩ => ⟨Expression.allNumbers_toJson he, Expression.allNumbers_itemsOf hes⟩

theorem FieldValue.allNumbers_toJson : ∀ {v : FieldValue}, v.AllLiterals p →
    v.toJson.AllNumbers p
  | .expression _, h => Expression.allNumbers_toJson h
  | .sequence _, h => Expression.allNumbers_itemsOf h
  | .choice _, _ => trivial
  | .text _, _ => trivial
  | .shape _, h => FieldValue.allNumbers_membersOf h

theorem FieldValue.allNumbers_membersOf : ∀ {fields : List (String × FieldValue)},
    FieldValue.AllLiteralsOfFields p fields →
    Json.AllNumbersOfMembers p (FieldValue.membersOf fields)
  | [], _ => trivial
  | (_, _) :: _, ⟨hvalue, hfields⟩ =>
      ⟨FieldValue.allNumbers_toJson hvalue, FieldValue.allNumbers_membersOf hfields⟩

end

theorem Strategy.allNumbers_toJson {s : Strategy} (h : s.AllLiterals p) :
    s.toJson.AllNumbers p :=
  ⟨trivial, trivial, Expression.allNumbers_toJson h, trivial⟩

end written

/-! ### Literals that are read -/

section read

variable {strict : Bool} {p : Json.Number → Prop}

theorem Json.allNumbers_of_member? {name : String} {members : List (String × Json)} {value : Json}
    (h : Json.AllNumbersOfMembers p members) (hm : Json.member? name members = some value) :
    value.AllNumbers p :=
  Json.allNumbersOfMembers_iff.mp h _ (Json.mem_of_member? hm)

theorem Expression.allLiterals_conditional {condition : Expression} {thenBranch : List Expression}
    {elseBranch : Option (List Expression)} (hcondition : condition.AllLiterals p)
    (hthen : AllLiteralsOfAll p thenBranch)
    (helse : ∀ es, elseBranch = some es → AllLiteralsOfAll p es) :
    (conditional condition thenBranch elseBranch).AllLiterals p := by
  cases elseBranch with
  | none => exact ⟨hcondition, hthen⟩
  | some es => exact ⟨hcondition, hthen, helse es rfl⟩

mutual

theorem Represents.allLiterals {value : Json} {e : Expression} :
    Represents strict value e → value.AllNumbers p → e.AllLiterals p
  | .number, h => h
  | .call _ _ hfields _, h => hfields.allLiterals h
  | .conditional _ hif hcondition hthen hthenBranch helse _, h =>
      Expression.allLiterals_conditional
        (hcondition.allLiterals (Json.allNumbers_of_member? h hif))
        (hthenBranch.allLiterals (Json.allNumbers_of_member? h hthen))
        (helse.allLiterals fun _ hvalue => Json.allNumbers_of_member? h hvalue)

theorem ItemsRepresent.allLiterals {items : List Json} {es : List Expression} :
    ItemsRepresent strict items es → Json.AllNumbersOfItems p items →
      Expression.AllLiteralsOfAll p es
  | .nil, _ => trivial
  | .cons hitem hitems, ⟨h, hs⟩ => ⟨hitem.allLiterals h, hitems.allLiterals hs⟩

theorem ElseRepresents.allLiterals {value : Option Json} {branch : Option (List Expression)} :
    ElseRepresents strict value branch → (∀ v, value = some v → v.AllNumbers p) →
      ∀ es, branch = some es → Expression.AllLiteralsOfAll p es
  | .absent, _ => nofun
  | .present hitems, h => fun _ hes => Option.some.inj hes ▸ hitems.allLiterals (h _ rfl)

theorem FieldRepresents.allLiterals {kind : FieldKind} {value : Json} {v : FieldValue} :
    FieldRepresents strict kind value v → value.AllNumbers p → v.AllLiterals p
  | .expression he, h => he.allLiterals h
  | .sequence _ hitems, h => hitems.allLiterals h
  | .choice _, _ => trivial
  | .text, _ => trivial
  | .identifier _, _ => trivial
  | .shape hfields _, h => hfields.allLiterals h
  | .optional hv, h => hv.allLiterals h

theorem FieldsRepresent.allLiterals {specs : List FieldSpec} {members : List (String × Json)}
    {fields : List (String × FieldValue)} :
    FieldsRepresent strict specs members fields → Json.AllNumbersOfMembers p members →
      FieldValue.AllLiteralsOfFields p fields
  | .nil, _ => trivial
  | .skip _ _ hfields, h => hfields.allLiterals h
  | .take hpresent hvalue hfields, h =>
      ⟨hvalue.allLiterals (Json.allNumbers_of_member? h hpresent), hfields.allLiterals h⟩

end

theorem DocumentRepresents.allLiterals {document : Json} {s : Strategy} :
    DocumentRepresents strict document s → document.AllNumbers p → s.AllLiterals p
  | .intro _ _ hstrategy hroot _, h => hroot.allLiterals (Json.allNumbers_of_member? h hstrategy)

end read

/-! ### Literals that are replaced -/

namespace Json

variable {f : Number → Option Number}

theorem reread_array_eq_some_iff {items read : List Json} :
    (array items).reread f = some (.array read) ↔ rereadItems f items = some read := by
  rw [reread]
  cases rereadItems f items with
  | none => exact ⟨nofun, nofun⟩
  | some others => simp

theorem rereadItems_cons_eq_some_iff {item value : Json} {items values : List Json} :
    rereadItems f (item :: items) = some (value :: values)
      ↔ item.reread f = some value ∧ rereadItems f items = some values := by
  rw [rereadItems]
  cases item.reread f with
  | none => exact ⟨nofun, nofun⟩
  | some other => simp [and_comm]

theorem map_fst_rereadMembers {members read : List (String × Json)}
    (h : rereadMembers f members = some read) : read.map (·.1) = members.map (·.1) := by
  induction members generalizing read with
  | nil =>
      cases h
      rfl
  | cons m rest ih =>
      obtain ⟨value, -, h⟩ := Option.bind_eq_some_iff.mp h
      obtain ⟨others, hothers, rfl⟩ := Option.map_eq_some_iff.mp h
      rw [List.map_cons, List.map_cons, ih hothers]

theorem member?_rereadMembers {members read : List (String × Json)}
    (h : rereadMembers f members = some read) (name : String) :
    member? name read = (member? name members).bind (·.reread f) := by
  induction members generalizing read with
  | nil =>
      cases h
      rfl
  | cons m rest ih =>
      obtain ⟨key, other⟩ := m
      obtain ⟨value, hvalue, h⟩ := Option.bind_eq_some_iff.mp h
      obtain ⟨others, hothers, rfl⟩ := Option.map_eq_some_iff.mp h
      rw [member?_cons, member?_cons, ih hothers]
      by_cases hkey : key = name
      · rw [if_pos hkey, if_pos hkey, Option.bind_some, hvalue]
      · rw [if_neg hkey, if_neg hkey]

/-- Each member of an object with different names is found with its numbers replaced. -/
theorem reread_of_mem {members read : List (String × Json)} (hnodup : (members.map (·.1)).Nodup)
    (h : (object members).reread f = some (.object read)) {name : String} {value : Json}
    (hmember : (name, value) ∈ members) : value.reread f = member? name read := by
  obtain ⟨others, hothers, heq⟩ := Option.map_eq_some_iff.mp h
  cases heq
  rw [member?_ofEntries (by rwa [map_fst_rereadMembers hothers]), member?_rereadMembers hothers,
    (member?_eq_some_iff hnodup).mpr hmember, Option.bind_some]

end Json

theorem FieldValue.mem_membersOf {field : String × FieldValue}
    {fields : List (String × FieldValue)} (h : field ∈ fields) :
    (field.1, field.2.toJson) ∈ membersOf fields := by
  induction fields with
  | nil => cases h
  | cons other fields ih =>
      rcases List.mem_cons.mp h with rfl | h
      · exact List.mem_cons_self
      · exact List.mem_cons_of_mem _ (ih h)

section reread

variable {strict : Bool} {f : Json.Number → Option Json.Number} {p : Json.Number → Prop}

mutual

theorem Represents.allLiterals_of_reread (hp : ∀ n, f n = some n → p n) {value : Json}
    {e : Expression} : Represents strict value e → e.toJson.reread f = some value →
      e.AllLiterals p
  | .number, h => by
      obtain ⟨n, hn, heq⟩ := Option.map_eq_some_iff.mp h
      cases heq
      exact hp _ hn
  | .call hcontract _ hfields _, h => by
      have hspecs := Catalog.wellNamed_fields hcontract
      have hconform := hfields.conform hspecs
      have hnodup := FieldValue.nodup_call hcontract hconform.sublist hconform.nodup
      exact hfields.allLiterals_of_reread hp hspecs fun field hfield =>
        Json.reread_of_mem (hnodup _) h (List.mem_cons_of_mem _ (FieldValue.mem_membersOf hfield))
  | .conditional _ hif hcondition hthen hthenBranch helse _, h => by
      rw [Expression.toJson_conditional] at h
      have hread : ∀ name (v : Json), (name, v) ∈ _ → v.reread f = Json.member? name _ :=
        fun _ _ => Json.reread_of_mem (Expression.nodup_conditional _ _ _ _) h
      refine Expression.allLiterals_conditional
        (hcondition.allLiterals_of_reread hp ((hread _ _ ?_).trans hif))
        (hthenBranch.allLiterals_of_reread hp
          (Json.reread_array_eq_some_iff.mp ((hread _ _ ?_).trans hthen)))
        (helse.allLiterals_of_reread hp fun es hes => hread _ _ ?_)
      · simp
      · simp
      · simp [hes]

theorem ItemsRepresent.allLiterals_of_reread (hp : ∀ n, f n = some n → p n)
    {items : List Json} {es : List Expression} : ItemsRepresent strict items es →
      Json.rereadItems f (Expression.itemsOf es) = some items → Expression.AllLiteralsOfAll p es
  | .nil, _ => trivial
  | .cons hitem hitems, h => by
      obtain ⟨hfirst, hothers⟩ := Json.rereadItems_cons_eq_some_iff.mp h
      exact ⟨hitem.allLiterals_of_reread hp hfirst, hitems.allLiterals_of_reread hp hothers⟩

theorem ElseRepresents.allLiterals_of_reread (hp : ∀ n, f n = some n → p n)
    {value : Option Json} {branch : Option (List Expression)} : ElseRepresents strict value branch →
      (∀ es, branch = some es → (Json.array (Expression.itemsOf es)).reread f = value) →
      ∀ es, branch = some es → Expression.AllLiteralsOfAll p es
  | .absent, _ => nofun
  | .present hitems, h => by
      intro es hes
      cases hes
      exact hitems.allLiterals_of_reread hp (Json.reread_array_eq_some_iff.mp (h _ rfl))

theorem FieldRepresents.allLiterals_of_reread (hp : ∀ n, f n = some n → p n)
    {kind : FieldKind} {value : Json} {v : FieldValue} (hkind : kind.WellNamed = true) :
    FieldRepresents strict kind value v → v.toJson.reread f = some value → v.AllLiterals p
  | .expression he, h => he.allLiterals_of_reread hp h
  | .sequence _ hitems, h => hitems.allLiterals_of_reread hp (Json.reread_array_eq_some_iff.mp h)
  | .choice _, _ => trivial
  | .text, _ => trivial
  | .identifier _, _ => trivial
  | .shape hfields _, h => by
      have hconform := hfields.conform (WellNamed.shape hkind)
      have hnodup := hconform.nodup
      rw [← FieldValue.map_fst_membersOf] at hnodup
      exact hfields.allLiterals_of_reread hp (WellNamed.shape hkind) fun field hfield =>
        Json.reread_of_mem hnodup h (FieldValue.mem_membersOf hfield)
  | .optional hv, h => hv.allLiterals_of_reread hp (WellNamed.optional hkind) h

theorem FieldsRepresent.allLiterals_of_reread (hp : ∀ n, f n = some n → p n)
    {specs : List FieldSpec} {members : List (String × Json)} {fields : List (String × FieldValue)}
    (hspecs : WellNamed specs) : FieldsRepresent strict specs members fields →
      (∀ field ∈ fields, field.2.toJson.reread f = Json.member? field.1 members) →
      FieldValue.AllLiteralsOfFields p fields
  | .nil, _ => trivial
  | .skip _ _ hfields, h => hfields.allLiterals_of_reread hp hspecs.tail h
  | .take hpresent hvalue hfields, h => by
      obtain ⟨hfirst, hothers⟩ := List.forall_mem_cons.mp h
      exact ⟨hvalue.allLiterals_of_reread hp hspecs.head (hfirst.trans hpresent),
        hfields.allLiterals_of_reread hp hspecs.tail hothers⟩

end

/-- A strategy is replaced by itself only if all its numbers are. -/
theorem DocumentRepresents.allLiterals_of_reread (hp : ∀ n, f n = some n → p n)
    {document : Json} {s : Strategy} (h : DocumentRepresents strict document s)
    (hread : s.toJson.reread f = some document) : s.AllLiterals p := by
  cases h with
  | intro _ _ hstrategy hroot _ =>
      have hnodup : ([("name", Json.string s.name), ("author", .string s.author),
          ("strategy", s.root.toJson)].map (·.1)).Nodup := by
        show ["name", "author", "strategy"].Nodup
        decide
      have hfound := Json.reread_of_mem hnodup hread
        (List.mem_cons_of_mem _ (List.mem_cons_of_mem _ List.mem_cons_self))
      exact hroot.allLiterals_of_reread hp (hfound.trans hstrategy)

end reread

end StrategyDoc
