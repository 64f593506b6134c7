import StrategyDoc.Proofs.Comparison
import StrategyDoc.Proofs.Locality
import StrategyDoc.Proofs.Representation

/-! # Replacing an expression

Where the walk through a document visits an expression, another value can stand instead.  The
strategy that is read then has the expression of that value in the same place, and is the same
everywhere else (`Dispatches.replaceAt`).  Together with the frame of the place this says all
about a document in terms of the value there (`Strategy.ofJson?_replaceAt`). -/

namespace StrategyDoc

open Json Validation

/-! ### Parts -/

section parts

variable {strict : Bool} {name : String} {kind : FieldKind} {members : List (String × Json)}
  {value v : Json} {path : Path}

theorem OnlyDeclared.modifyMember {declared : List String} (f g : Json → Json)
    (h : OnlyDeclared strict declared (modifyMember name f members)) :
    OnlyDeclared strict declared (modifyMember name g members) := by
  intro hstrict m hm
  have hmem : m.1 ∈ (Json.modifyMember name f members).map (·.1) := by
    rw [map_fst_modifyMember, ← map_fst_modifyMember (f := g)]
    exact List.mem_map_of_mem hm
  obtain ⟨m', hm', heq⟩ := List.mem_map.mp hmem
  exact heq ▸ h hstrict m' hm'

theorem FieldsRepresent.congr {specs : List FieldSpec} {members' : List (String × Json)}
    {fields : List (String × FieldValue)}
    (hmembers : ∀ name ∈ specs.map (·.1), member? name members' = member? name members)
    (h : FieldsRepresent strict specs members fields) :
    FieldsRepresent strict specs members' fields := by
  induction specs generalizing fields with
  | nil =>
      cases h
      exact .nil
  | cons spec specs ih =>
      obtain ⟨hname, hspecs⟩ := List.forall_mem_cons.mp hmembers
      cases h with
      | skip habsent hoptional hfields =>
          exact .skip (hname.trans habsent) hoptional (ih hspecs hfields)
      | take hpresent hvalue hfields => exact .take (hname.trans hpresent) hvalue (ih hspecs hfields)

/-- With the value `v` at the path, the field value has its expression there, and any other
expression can be put in its place. -/
def Holds (strict : Bool) (kind : FieldKind) (value : Json) (path : Path) (v : Json)
    (fv : FieldValue) : Prop :=
  ∃ e, fv.at? path = some (.expression e) ∧ Represents strict v e
    ∧ ∀ v' e', Represents strict v' e' →
      FieldRepresents strict kind (value.replaceAt path v') (fv.replaceAt path e')

theorem FieldsRepresent.holds {specs : List FieldSpec} {fields : List (String × FieldValue)}
    (hnodup : (specs.map (·.1)).Nodup) (hfield : (name, kind) ∈ specs)
    (hmember : member? name members = some value)
    (hholds : ∀ fv, FieldRepresents strict kind (value.replaceAt path v) fv →
      Holds strict kind value path v fv)
    (h : FieldsRepresent strict specs (modifyMember name (·.replaceAt path v) members) fields) :
    ∃ e, (FieldValue.find? name fields).bind (·.at? path) = some (.expression e)
      ∧ Represents strict v e ∧ ∀ v' e', Represents strict v' e' →
        FieldsRepresent strict specs (modifyMember name (·.replaceAt path v') members)
          (FieldValue.modifyField name (·.replaceAt path e') fields) := by
  induction specs generalizing fields with
  | nil => cases hfield
  | cons spec specs ih =>
      obtain ⟨key, other⟩ := spec
      obtain ⟨hkey, htail⟩ := List.nodup_cons.mp hnodup
      rcases List.mem_cons.mp hfield with heq | hfield
      · cases heq
        have hfound : ∀ v, member? name (modifyMember name (·.replaceAt path v) members)
            = some (value.replaceAt path v) := by
          intro v
          rw [member?_modifyMember, hmember, Option.map_some]
        cases h with
        | skip habsent => cases habsent.symm.trans (hfound v)
        | take hpresent hvalue hfields =>
            cases hpresent.symm.trans (hfound v)
            obtain ⟨e, hat, he, hreplace⟩ := hholds _ hvalue
            refine ⟨e, ?_, he, fun v' e' he' => ?_⟩
            · rw [FieldValue.find?, if_pos rfl]
              exact hat
            · rw [FieldValue.modifyField, if_pos rfl]
              refine .take (hfound v') (hreplace v' e' he') (hfields.congr fun n hn => ?_)
              have hne : n ≠ name := by
                rintro rfl
                exact hkey hn
              rw [member?_modifyMember_of_ne hne, member?_modifyMember_of_ne hne]
      · have hne : key ≠ name := by
          rintro rfl
          exact hkey (List.mem_map.mpr ⟨_, hfield, rfl⟩)
        have hsame : ∀ v', member? key (modifyMember name (·.replaceAt path v') members)
            = member? key (modifyMember name (·.replaceAt path v) members) := by
          intro v'
          rw [member?_modifyMember_of_ne hne, member?_modifyMember_of_ne hne]
        cases h with
        | skip habsent hoptional hfields =>
            obtain ⟨e, hat, he, hreplace⟩ := ih htail hfield hfields
            refine ⟨e, hat, he, fun v' e' he' => ?_⟩
            exact .skip ((hsame v').trans habsent) hoptional (hreplace v' e' he')
        | take hpresent hvalue hfields =>
            obtain ⟨e, hat, he, hreplace⟩ := ih htail hfield hfields
            refine ⟨e, ?_, he, fun v' e' he' => ?_⟩
            · rw [FieldValue.find?, if_neg hne]
              exact hat
            · rw [FieldValue.modifyField, if_neg hne]
              exact .take ((hsame v').trans hpresent) hvalue (hreplace v' e' he')

theorem ItemsRepresent.holds {items : List Json} {es : List Expression} {i : Nat} {item : Json}
    (hitem : items[i]? = some item)
    (hholds : ∀ fv, FieldRepresents strict .expression (item.replaceAt path v) fv →
      Holds strict .expression item path v fv)
    (h : ItemsRepresent strict (items.modify i (·.replaceAt path v)) es) :
    ∃ e, ((es[i]?.map FieldValue.expression).bind (·.at? path)) = some (.expression e)
      ∧ Represents strict v e ∧ ∀ v' e', Represents strict v' e' →
        ItemsRepresent strict (items.modify i (·.replaceAt path v')) (es.modify i fun e =>
          ((FieldValue.expression e).replaceAt path e').expression?.getD e) := by
  induction items generalizing i es with
  | nil => cases hitem
  | cons first items ih =>
      cases i with
      | zero =>
          cases hitem
          rw [List.modify_zero_cons] at h
          cases h with
          | cons hfirst hitems =>
              obtain ⟨e, hat, he, hreplace⟩ := hholds _ (.expression hfirst)
              refine ⟨e, hat, he, fun v' e' he' => ?_⟩
              rw [List.modify_zero_cons, List.modify_zero_cons]
              obtain ⟨c, hfv, hnew⟩ := (hreplace v' e' he').exists_expression
              rw [hfv]
              exact .cons hnew hitems
      | succ i =>
          rw [List.modify_succ_cons] at h
          cases h with
          | cons hfirst hitems =>
              obtain ⟨e, hat, he, hreplace⟩ := ih hitem hitems
              refine ⟨e, hat, he, fun v' e' he' => ?_⟩
              rw [List.modify_succ_cons, List.modify_succ_cons]
              exact .cons hfirst (hreplace v' e' he')

/-- As for the fields of a call, with a conditional as the result. -/
theorem Represents.holds_conditional {condition : Expression} {thenBranch : List Expression}
    {elseBranch : Option (List Expression)} (hfield : (name, kind) ∈ conditionalSpecs)
    (hne : name ≠ "function") (hmember : member? name members = some value)
    (hholds : ∀ fv, FieldRepresents strict kind (value.replaceAt path v) fv →
      Holds strict kind value path v fv)
    (h : Represents strict (.object (modifyMember name (·.replaceAt path v) members))
      (.conditional condition thenBranch elseBranch)) :
    ∃ e, (FieldValue.expression (.conditional condition thenBranch elseBranch)).at?
        (.field name :: path) = some (.expression e)
      ∧ Represents strict v e ∧ ∀ v' e', Represents strict v' e' → ∃ c : Conditional,
        (FieldValue.expression (.conditional condition thenBranch elseBranch)).replaceAt
          (.field name :: path) e' = .expression c.toExpression
        ∧ Represents strict (.object (modifyMember name (·.replaceAt path v') members))
            c.toExpression := by
  have hfound : ∀ v, member? name (modifyMember name (·.replaceAt path v) members)
      = some (value.replaceAt path v) := by
    intro v
    rw [member?_modifyMember, hmember, Option.map_some]
  have hkept : ∀ v' {key o}, key ≠ name →
      member? key (modifyMember name (·.replaceAt path v) members) = o →
      member? key (modifyMember name (·.replaceAt path v') members) = o := by
    intro v' key o hkey ho
    rw [member?_modifyMember_of_ne hkey] at ho ⊢
    exact ho
  cases h with
  | conditional hfunction hif hcondition hthen hthenBranch helse hdeclared =>
      simp only [conditionalSpecs, List.mem_cons, Prod.mk.injEq, List.not_mem_nil, or_false]
        at hfield
      rcases hfield with ⟨rfl, rfl⟩ | ⟨rfl, rfl⟩ | ⟨rfl, rfl⟩ | ⟨rfl, rfl⟩
      · exact absurd rfl hne
      · cases hif.symm.trans (hfound v)
        obtain ⟨e, hat, he, hreplace⟩ := hholds _ (.expression hcondition)
        refine ⟨e, hat, he, fun v' e' he' => ?_⟩
        obtain ⟨c, hfv, hc⟩ := (hreplace v' e' he').exists_expression
        have helse' : member? "else" _ = _ := hkept v' (by decide) rfl
        refine ⟨⟨c, thenBranch, elseBranch⟩, ?_, ?_⟩
        · rw [FieldValue.replaceAt, FieldValue.modifyStep, if_pos rfl, hfv]
          rfl
        · exact .conditional (hkept v' (by decide) hfunction) (hfound v') hc
            (hkept v' (by decide) hthen) hthenBranch (helse' ▸ helse) (hdeclared.modifyMember _ _)
      · have harray := Option.some.inj (hthen.symm.trans (hfound v))
        obtain ⟨e, hat, he, hreplace⟩ := hholds (.sequence thenBranch)
          (harray ▸ .sequence nofun hthenBranch)
        refine ⟨e, hat, he, fun v' e' he' => ?_⟩
        obtain ⟨items, es, hvalue, hfv, hitems⟩ := (hreplace v' e' he').exists_sequence
        have helse' : member? "else" _ = _ := hkept v' (by decide) rfl
        have hthen' := (hfound v').trans (congrArg some hvalue)
        refine ⟨⟨condition, es, elseBranch⟩, ?_, ?_⟩
        · rw [FieldValue.replaceAt, FieldValue.modifyStep, if_neg (by decide), if_pos rfl, hfv]
          rfl
        · exact .conditional (hkept v' (by decide) hfunction) (hkept v' (by decide) hif) hcondition
            hthen' hitems (helse' ▸ helse) (hdeclared.modifyMember _ _)
      · rw [hfound v] at helse
        generalize hvalue : value.replaceAt path v = old at helse
        cases helse with
        | @present items es hitems =>
            obtain ⟨e, hat, he, hreplace⟩ := hholds (.sequence es)
              (hvalue ▸ .optional (.sequence nofun hitems))
            refine ⟨e, hat, he, fun v' e' he' => ?_⟩
            cases hreplace v' e' he' with
            | optional hnew =>
                obtain ⟨items', es', hvalue', hfv, hitems'⟩ := hnew.exists_sequence
                have helse' := (hfound v').trans (congrArg some hvalue')
                refine ⟨⟨condition, thenBranch, some es'⟩, ?_, ?_⟩
                · rw [FieldValue.replaceAt, FieldValue.modifyStep, if_neg (by decide),
                    if_neg (by decide), if_pos rfl, Option.map_some, hfv]
                  rfl
                · exact .conditional (hkept v' (by decide) hfunction) (hkept v' (by decide) hif)
                    hcondition (hkept v' (by decide) hthen) hthenBranch
                    (helse' ▸ .present hitems') (hdeclared.modifyMember _ _)

end parts

/-! ### Expressions and documents -/

section documents

variable {policy : Policy}

/-- **The expression in a place.**  What is read from a value with `v` at a reachable path has
the expression of `v` there, and any other can be put in its place. -/
theorem Reaches.holds {strict : Bool} {level target : Nat} {kind : FieldKind} {value v : Json}
    {path : Path} {fv : FieldValue} (h : Reaches policy level kind value path target)
    (hkind : kind.WellNamed = true)
    (hfv : FieldRepresents strict kind (value.replaceAt path v) fv) :
    Holds strict kind value path v fv := by
  induction h generalizing fv with
  | here =>
      cases hfv with
      | @expression _ e he =>
          rw [Json.replaceAt] at he
          exact ⟨e, rfl, he, fun _ _ he' => .expression he'⟩
  | @inside level target members name kind value path hlevel hfield hmember h ih =>
      have hholds := fun fv => @ih fv ((wellNamed_nodeSpecs members).kind_of_mem hfield)
      have hne := h.name_ne_function hfield
      have hmarker : ∀ v, member? "function" (modifyMember name (·.replaceAt path v) members)
          = member? "function" members := fun _ => member?_modifyMember_of_ne hne.symm
      cases hfv with
      | @expression _ e he =>
          rw [Json.replaceAt] at he
          rcases marker_cases members with hf | ⟨contract, hcontract, hf⟩ | ⟨hconditional, hcall⟩
          · obtain ⟨c, rfl⟩ := he.exists_conditional ((hmarker v).trans hf)
            rw [nodeSpecs_conditional hf] at hfield
            obtain ⟨e, hat, he, hreplace⟩ := he.holds_conditional hfield hne hmember hholds
            refine ⟨e, hat, he, fun v' e' he' => ?_⟩
            obtain ⟨c', heq, hc'⟩ := hreplace v' e' he'
            rw [Json.replaceAt]
            exact heq ▸ .expression hc'
          · obtain ⟨fields, rfl, hfields, hdeclared⟩ :=
              he.exists_call hcontract ((hmarker v).trans hf)
            rw [nodeSpecs_call hcontract hf] at hfield
            rcases List.mem_cons.mp hfield with heq | hfield
            · exact absurd (Prod.mk.inj heq).1 hne
            obtain ⟨e, hat, he, hreplace⟩ := hfields.holds
              (Catalog.wellNamed_fields hcontract).1 hfield hmember hholds
            refine ⟨e, hat, he, fun v' e' he' => ?_⟩
            rw [Json.replaceAt]
            exact .expression (.call hcontract ((hmarker v').trans hf) (hreplace v' e' he')
              (hdeclared.modifyMember _ _))
          · rw [nodeSpecs_other hconditional hcall] at hfield
            cases hfield
  | @item level target length items i item path hlength hitem h ih =>
      rw [Json.replaceAt] at hfv
      cases hfv with
      | @sequence _ _ es _ hitems =>
          obtain ⟨e, hat, he, hreplace⟩ := hitems.holds hitem fun fv => @ih fv rfl
          refine ⟨e, hat, he, fun v' e' he' => ?_⟩
          rw [Json.replaceAt]
          refine .sequence (fun expected h => ?_) (hreplace v' e' he')
          rw [List.length_modify, hlength expected h]
  | shape hfield hmember h ih =>
      have hspecs := WellNamed.shape hkind
      rw [Json.replaceAt] at hfv
      cases hfv with
      | shape hfields hdeclared =>
          obtain ⟨e, hat, he, hreplace⟩ := hfields.holds hspecs.1 hfield hmember
            fun fv => @ih fv (hspecs.kind_of_mem hfield)
          refine ⟨e, hat, he, fun v' e' he' => ?_⟩
          rw [Json.replaceAt]
          exact .shape (hreplace v' e' he') (hdeclared.modifyMember _ _)
  | optional h ih =>
      cases hfv with
      | optional hfv =>
          obtain ⟨e, hat, he, hreplace⟩ := ih (WellNamed.optional hkind) hfv
          exact ⟨e, hat, he, fun v' e' he' => .optional (hreplace v' e' he')⟩

theorem Dispatches.holds {strict : Bool} {document v : Json} {path : Path} {level : Nat}
    {s : Strategy} (h : Dispatches policy document path level)
    (hs : DocumentRepresents strict (document.replaceAt path v) s) :
    ∃ e, s.at? path = some e ∧ Represents strict v e ∧ ∀ v' e', Represents strict v' e' →
      DocumentRepresents strict (document.replaceAt path v') (s.replaceAt path e') := by
  cases h with
  | @intro level members root name kind value path hstrategy hfunction hfield hmember h =>
      have hspecs := nodeSpecs_conditional hfunction ▸ wellNamed_nodeSpecs root
      have hne := h.name_ne_function (nodeSpecs_conditional hfunction ▸ hfield)
      have hfound : ∀ v, member? "strategy" (modifyMember "strategy"
          (·.replaceAt (.field name :: path) v) members)
          = some (.object (modifyMember name (·.replaceAt path v) root)) := by
        intro v
        rw [member?_modifyMember, hstrategy, Option.map_some, Json.replaceAt]
      have hsame : ∀ v' key, key ≠ "strategy" → member? key (modifyMember "strategy"
          (·.replaceAt (.field name :: path) v') members)
          = member? key (modifyMember "strategy" (·.replaceAt (.field name :: path) v) members) := by
        intro v' key hkey
        rw [member?_modifyMember_of_ne hkey, member?_modifyMember_of_ne hkey]
      rw [Json.replaceAt] at hs
      cases hs with
      | intro hname hauthor hvalue hroot hdeclared =>
          cases hvalue.symm.trans (hfound v)
          obtain ⟨e, hat, he, hreplace⟩ := hroot.holds_conditional hfield hne hmember
            fun fv hfv => h.holds (hspecs.kind_of_mem hfield) hfv
          refine ⟨e, ?_, he, fun v' e' he' => ?_⟩
          · exact congrArg (·.bind FieldValue.expression?) hat
          · obtain ⟨c, heq, hc⟩ := hreplace v' e' he'
            rw [Strategy.replaceAt_eq heq, Json.replaceAt]
            exact .intro ((hsame v' _ (by decide)).trans hname)
              ((hsame v' _ (by decide)).trans hauthor) (hfound v') hc (hdeclared.modifyMember _ _)

end documents

/-! ### All about a document in terms of one place -/

/-- The policy for an expression that stands at a level: it has the levels that are left. -/
def Policy.atLevel (policy : Policy) (level : Nat) : Policy :=
  policy.withMaxDepth (policy.maxDepth - (level - 1))

/-- What is wrong with an expression at a path and a level, as it is reported for the whole
document: the limit that is quoted is that of the document. -/
def Diagnostic.ofPart (policy : Policy) (path : Path) (level : Nat) (value : Json) :
    List Diagnostic :=
  (Diagnostic.ofResult (Expression.ofJson? (policy.atLevel level) value)).map fun d =>
    (d.requote policy.maxDepth).behind path

section place

variable {policy : Policy} {document : Json} {path : Path} {level : Nat}

theorem Diagnostic.ofPart_eq (value : Json) : Diagnostic.ofPart policy path level value
    = (expression policy (policy.maxDepth - (level - 1)) value).errors.map (·.behind path) := by
  rw [errors_expression_withMaxDepth policy (policy.maxDepth - (level - 1)), List.map_map]
  exact congrArg (List.map _) (Finding.ofResult_result _)

/-- **Diagnostics are local and none is lost.**  Whatever value stands where the walk visits an
expression, the diagnostics of the document are those of the value in the middle of others
that do not depend on it.  The document is accepted exactly if there are no others and the
value is accepted with the levels that are left; its strategy then has the expression of the
value in that place, and is the same everywhere else for every other value. -/
theorem Strategy.ofJson?_replaceAt (h : Dispatches policy document path level) :
    ∃ before after, ∀ v,
      (document.replaceAt path v).at? path = some v
      ∧ Diagnostic.ofResult (Strategy.ofJson? policy (document.replaceAt path v))
        = before ++ Diagnostic.ofPart policy path level v ++ after
      ∧ ((∃ s, Strategy.ofJson? policy (document.replaceAt path v) = .ok s)
        ↔ before = [] ∧ after = []
          ∧ ∃ e, Expression.ofJson? (policy.atLevel level) v = .ok e)
      ∧ ∀ s, Strategy.ofJson? policy (document.replaceAt path v) = .ok s →
        ∃ e, Expression.ofJson? (policy.atLevel level) v = .ok e ∧ s.at? path = some e
          ∧ ∀ v' e', Expression.ofJson? (policy.atLevel level) v' = .ok e' →
            Strategy.ofJson? policy (document.replaceAt path v') = .ok (s.replaceAt path e') := by
  obtain ⟨before, after, hframe⟩ := h.frames
  have herrors : ∀ v, (strategy policy (document.replaceAt path v)).errors
      = before ++ Diagnostic.ofPart policy path level v ++ after := by
    intro v
    rw [Diagnostic.ofPart_eq]
    exact hframe v
  have haccepted : ∀ v, (∃ s, Strategy.ofJson? policy (document.replaceAt path v) = .ok s)
      ↔ before = [] ∧ after = [] ∧ ∃ e, Expression.ofJson? (policy.atLevel level) v = .ok e := by
    intro v
    have hpart : Diagnostic.ofPart policy path level v = []
        ↔ ∃ e, Expression.ofJson? (policy.atLevel level) v = .ok e := by
      rw [Diagnostic.ofPart, List.map_eq_nil_iff, Expression.ofJson?, Finding.ofResult_result]
      exact (coherent_expression _ v).exists_result_eq_ok_iff.symm
    rw [Strategy.ofJson?, (coherent_strategy _).exists_result_eq_ok_iff, herrors,
      List.append_eq_nil_iff, List.append_eq_nil_iff, hpart, and_assoc]
    exact and_congr_right fun _ => and_comm
  refine ⟨before, after, fun v => ⟨?_, ?_, haccepted v, fun s hs => ?_⟩⟩
  · obtain ⟨part, hpart⟩ := h.exists_at?
    exact at?_replaceAt hpart
  · rw [Strategy.ofJson?, Finding.ofResult_result, herrors]
  · obtain ⟨hbefore, hafter, e, he⟩ := (haccepted v).mp ⟨s, hs⟩
    have hrepresents := (Expression.ofJson?_eq_ok_iff.mp he).1
    obtain ⟨hdocument, _⟩ := Strategy.ofJson?_eq_ok_iff.mp hs
    obtain ⟨e₀, hat, he₀, hreplace⟩ := h.holds hdocument
    cases hrepresents.unique he₀
    refine ⟨e, he, hat, fun v' e' he' => ?_⟩
    obtain ⟨s', hs'⟩ := (haccepted v').mpr ⟨hbefore, hafter, e', he'⟩
    have hnew := hreplace v' e' (Expression.ofJson?_eq_ok_iff.mp he').1
    rw [hs', (Strategy.ofJson?_eq_ok_iff.mp hs').1.unique hnew]

end place

/-- A document with one place for an expression, its condition. -/
def Json.conditionOnly : Json :=
  .object [("author", .string "nobody"), ("name", .string "idle"),
    ("strategy", .object [("function", .string conditionalWord), ("if", .number (.integer 1)),
      ("then", .array [])])]

theorem Json.dispatches_conditionOnly :
    Dispatches ⟨true, 2, true⟩ Json.conditionOnly [.field "strategy", .field "if"] 2 :=
  .intro rfl rfl (List.mem_of_getElem? (i := 1) rfl) rfl .here

/-- What is wrong with the document is what is wrong with its condition. -/
theorem Json.errors_conditionOnly :
    Dispatches ⟨true, 2, true⟩ Json.conditionOnly [.field "strategy", .field "if"] 2
      ∧ ∃ before after, ∀ v,
        Diagnostic.ofResult (Strategy.ofJson? ⟨true, 2, true⟩
          (Json.conditionOnly.replaceAt [.field "strategy", .field "if"] v))
        = before ++ Diagnostic.ofPart ⟨true, 2, true⟩ [.field "strategy", .field "if"] 2 v
          ++ after := by
  obtain ⟨before, after, h⟩ := Strategy.ofJson?_replaceAt dispatches_conditionOnly
  exact ⟨dispatches_conditionOnly, before, after, fun v => (h v).2.1⟩

end StrategyDoc
