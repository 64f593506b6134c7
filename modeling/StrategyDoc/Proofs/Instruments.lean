import Mathlib.Data.List.Induction
import StrategyDoc.Proofs.Conformance
import StrategyDoc.Proofs.Places
import StrategyDoc.Strategy.Instrument

/-! # The instruments of a strategy

The calls of a strategy come in the order of a walk (`Strategy.calls`): a call before those in
its fields, the condition of a conditional before its branches.  Which instrument a call carries
is said by the entries of its fields (`Expression.Carries`).  In a strategy that was read, each
call of a function with an instrument carries exactly one, which is found
(`Catalog.exists_instrument?`), and nothing else is found (`Catalog.instrument?_eq_some_iff`);
no call hides inside a nested object.  So the instruments of the strategy are those of its calls,
each once and in the order of their first calls (`Strategy.instruments_of_ofJson?`).  A walk that
adds to one list what is not yet in it ends with the same list
(`Strategy.instruments_eq_collect`). -/

namespace StrategyDoc

/-! ### Calls -/

mutual

/-- The calls in an expression, in the order of a walk. -/
def Expression.calls : Expression → List Expression
  | .number _ => []
  | .call function fields => .call function fields :: FieldValue.callsOfFields fields
  | .conditional condition thenBranch none => condition.calls ++ Expression.callsOfAll thenBranch
  | .conditional condition thenBranch (some elseBranch) =>
    condition.calls ++ Expression.callsOfAll thenBranch ++ Expression.callsOfAll elseBranch

def Expression.callsOfAll : List Expression → List Expression
  | [] => []
  | e :: rest => e.calls ++ Expression.callsOfAll rest

/-- The calls in a field, also those in nested objects. -/
def FieldValue.calls : FieldValue → List Expression
  | .expression e => e.calls
  | .sequence items => Expression.callsOfAll items
  | .choice _ => []
  | .text _ => []
  | .shape fields => FieldValue.callsOfFields fields

def FieldValue.callsOfFields : List (String × FieldValue) → List Expression
  | [] => []
  | (_, value) :: rest => value.calls ++ FieldValue.callsOfFields rest

end

/-- The calls of a strategy, in the order of a walk. -/
def Strategy.calls (s : Strategy) : List Expression := s.root.toExpression.calls

/-- The fields of a nested object are those of the instrument. -/
structure Instrument.WrittenIn (i : Instrument) (fields : List (String × FieldValue)) : Prop where
  name : ("name", .text i.name) ∈ fields
  ticker : ("ticker", .text i.ticker) ∈ fields
  assetClass : ("type", .choice i.assetClass.name) ∈ fields

/-- The expression is a call with the instrument in its field for one. -/
inductive Expression.Carries : Expression → Instrument → Prop
  | intro {function : String} {fields inner : List (String × FieldValue)} {i : Instrument}
      (hfield : ("instrument", .shape inner) ∈ fields) (hwritten : i.WrittenIn inner) :
      Carries (.call function fields) i

/-! ### Fields -/

theorem FieldValue.find?_eq_some_iff {name : String} {v : FieldValue}
    {fields : List (String × FieldValue)} (hnodup : (fields.map (·.1)).Nodup) :
    find? name fields = some v ↔ (name, v) ∈ fields := by
  induction fields with
  | nil => exact ⟨nofun, nofun⟩
  | cons f fields ih =>
    obtain ⟨key, value⟩ := f
    obtain ⟨hkey, hfields⟩ := List.nodup_cons.mp hnodup
    rw [find?, List.mem_cons]
    by_cases hname : key = name
    · subst hname
      have hfresh : (key, v) ∉ fields := fun hmem => hkey (List.mem_map.mpr ⟨_, hmem, rfl⟩)
      simp [hfresh, eq_comm]
    · rw [if_neg hname, ih hfields]
      simp [Ne.symm hname]

theorem FieldsConform.exists_mem {specs : List FieldSpec} {fields : List (String × FieldValue)}
    {name : String} {kind : FieldKind} (h : FieldsConform specs fields)
    (hspec : (name, kind) ∈ specs) (hkind : kind.isRequired = true) :
    ∃ v, (name, v) ∈ fields ∧ v.Conforms kind := by
  obtain ⟨_, _, hrequired, hvalues⟩ := h
  obtain ⟨⟨key, v⟩, hmem, rfl⟩ := List.mem_map.mp (hrequired (name, kind) hspec hkind)
  exact ⟨v, hmem, hvalues (key, kind) hspec (key, v) hmem rfl⟩

theorem FieldsConform.exists_spec {specs : List FieldSpec} {fields : List (String × FieldValue)}
    {name : String} {v : FieldValue} (h : FieldsConform specs fields) (hmem : (name, v) ∈ fields) :
    ∃ kind, (name, kind) ∈ specs ∧ v.Conforms kind := by
  obtain ⟨horder, _, _, hvalues⟩ := h
  have hname : name ∈ specs.map (·.1) := horder.subset (List.mem_map_of_mem hmem)
  obtain ⟨⟨key, kind⟩, hspec, rfl⟩ := List.mem_map.mp hname
  exact ⟨kind, hspec, hvalues (key, kind) hspec (key, v) hmem rfl⟩

/-! ### The instrument of a call -/

namespace Instrument

variable {i : Instrument} {fields : List (String × FieldValue)}

theorem Class.ofName?_name (c : Class) : Class.ofName? c.name = some c := by
  cases c <;> rfl

theorem Class.exists_name_eq {s : String} (h : s ∈ Catalog.instrumentClasses) :
    ∃ c : Class, c.name = s := by
  simp only [Catalog.instrumentClasses, List.mem_cons, List.not_mem_nil, or_false] at h
  rcases h with rfl | rfl | rfl
  · exact ⟨.equity, rfl⟩
  · exact ⟨.options, rfl⟩
  · exact ⟨.futures, rfl⟩

theorem WrittenIn.ofFields? (h : i.WrittenIn fields) (hnodup : (fields.map (·.1)).Nodup) :
    Instrument.ofFields? fields = some i := by
  have hname := (FieldValue.find?_eq_some_iff hnodup).mpr h.name
  have hticker := (FieldValue.find?_eq_some_iff hnodup).mpr h.ticker
  have hclass := (FieldValue.find?_eq_some_iff hnodup).mpr h.assetClass
  simp [Instrument.ofFields?, hname, hticker, hclass, FieldValue.string?, Class.ofName?_name]

/-- Fields as the catalog has them for an instrument are those of some instrument. -/
theorem exists_writtenIn (h : FieldsConform Catalog.instrumentFields fields) :
    ∃ i : Instrument, i.WrittenIn fields := by
  obtain ⟨_, hname, hnameText⟩ : ∃ v, ("name", v) ∈ fields ∧ v.Conforms .text :=
    h.exists_mem (.head _) rfl
  obtain ⟨_, htype, htypeChoice⟩ : ∃ v, ("type", v) ∈ fields ∧
      v.Conforms (.oneOf Catalog.instrumentClasses) := h.exists_mem (.tail _ (.head _)) rfl
  obtain ⟨_, hticker, htickerText⟩ : ∃ v, ("ticker", v) ∈ fields ∧ v.Conforms .text :=
    h.exists_mem (.tail _ (.tail _ (.head _))) rfl
  cases hnameText with
  | text name =>
    cases htickerText with
    | text ticker =>
      cases htypeChoice with
      | choice hallowed =>
        obtain ⟨assetClass, rfl⟩ := Class.exists_name_eq hallowed
        exact ⟨⟨name, ticker, assetClass⟩, hname, hticker, htype⟩

end Instrument

/-- The kind of the field for an instrument. -/
def FieldKind.isInstrument : FieldKind → Bool
  | .shape [(name, .text), (type, .oneOf allowed), (ticker, .text)] =>
    decide (name = "name" ∧ type = "type" ∧ ticker = "ticker" ∧
      allowed = Catalog.instrumentClasses)
  | _ => false

theorem FieldKind.eq_instrument_of_isInstrument {kind : FieldKind} (h : kind.isInstrument = true) :
    kind = Catalog.instrument := by
  unfold isInstrument at h
  split at h
  · obtain ⟨rfl, rfl, rfl, rfl⟩ := of_decide_eq_true h
    rfl
  · nomatch h

namespace Catalog

variable {contract : Contract} {fields : List (String × FieldValue)} {i : Instrument}

/-- Wherever a contract has a field for an instrument, it asks for the same. -/
theorem kind_eq_instrument {kind : FieldKind} (hcontract : contract ∈ all)
    (h : ("instrument", kind) ∈ contract.fields) : kind = instrument := by
  have hall : ∀ contract ∈ all, ∀ spec ∈ contract.fields,
      spec.1 = "instrument" → spec.2.isInstrument = true := by decide +kernel
  exact FieldKind.eq_instrument_of_isInstrument (hall contract hcontract _ h rfl)

theorem exists_shape {v : FieldValue} (hcontract : contract ∈ all)
    (hfields : FieldsConform contract.fields fields) (h : ("instrument", v) ∈ fields) :
    ∃ (inner : List (String × FieldValue)) (i : Instrument),
      v = .shape inner ∧ (inner.map (·.1)).Nodup ∧ i.WrittenIn inner := by
  obtain ⟨kind, hspec, hconforms⟩ := hfields.exists_spec h
  rw [kind_eq_instrument hcontract hspec] at hconforms
  cases hconforms with
  | shape hinner =>
    obtain ⟨i, hi⟩ := Instrument.exists_writtenIn hinner
    exact ⟨_, i, rfl, hinner.nodup, hi⟩

theorem instrument?_eq_some_iff (hcontract : contract ∈ all)
    (hfields : FieldsConform contract.fields fields) :
    (Expression.call contract.name fields).instrument? = some i ↔
      (Expression.call contract.name fields).Carries i := by
  have hfind : ∀ v, FieldValue.find? "instrument" fields = some v ↔ ("instrument", v) ∈ fields :=
    fun v => FieldValue.find?_eq_some_iff hfields.nodup
  constructor
  · intro h
    rw [Expression.instrument?, Instrument.ofCall?] at h
    split at h
    case h_1 inner hinner =>
      obtain ⟨_, j, ⟨⟩, hnodup, hj⟩ :=
        exists_shape hcontract hfields ((hfind _).mp hinner)
      rw [hj.ofFields? hnodup] at h
      cases h
      exact .intro ((hfind _).mp hinner) hj
    case h_2 => nomatch h
  · rintro ⟨hfield, hwritten⟩
    obtain ⟨_, j, ⟨⟩, hnodup, -⟩ := exists_shape hcontract hfields hfield
    rw [Expression.instrument?, Instrument.ofCall?, (hfind _).mpr hfield]
    exact hwritten.ofFields? hnodup

theorem exists_instrument? (hcontract : contract ∈ all)
    (hfields : FieldsConform contract.fields fields) (h : "instrument" ∈ contract.fieldNames) :
    ∃ i, (Expression.call contract.name fields).instrument? = some i := by
  obtain ⟨⟨_, kind⟩, hspec, rfl⟩ := List.mem_map.mp h
  have hkind := kind_eq_instrument hcontract hspec
  obtain ⟨v, hmem, -⟩ := hfields.exists_mem hspec (hkind ▸ rfl)
  obtain ⟨inner, i, rfl, -, hi⟩ := exists_shape hcontract hfields hmem
  exact ⟨i, (instrument?_eq_some_iff hcontract hfields).mpr (.intro hmem hi)⟩

end Catalog

/-! ### All calls -/

/-- The expression is a call as the catalog describes it. -/
def Expression.IsDescribed (call : Expression) : Prop :=
  ∃ contract ∈ Catalog.all, ∃ fields,
    call = .call contract.name fields ∧ FieldsConform contract.fields fields

theorem Expression.IsDescribed.instrument?_eq_some_iff {call : Expression} {i : Instrument}
    (h : call.IsDescribed) : call.instrument? = some i ↔ call.Carries i := by
  obtain ⟨contract, hcontract, fields, rfl, hfields⟩ := h
  exact Catalog.instrument?_eq_some_iff hcontract hfields

theorem Expression.mem_filterMap_instrument?_iff {calls : List Expression} {i : Instrument}
    (h : ∀ call ∈ calls, call.IsDescribed) :
    i ∈ calls.filterMap (·.instrument?) ↔ ∃ call ∈ calls, call.Carries i := by
  rw [List.mem_filterMap]
  constructor
  · rintro ⟨call, hcall, hi⟩
    exact ⟨call, hcall, (h call hcall).instrument?_eq_some_iff.mp hi⟩
  · rintro ⟨call, hcall, hi⟩
    exact ⟨call, hcall, (h call hcall).instrument?_eq_some_iff.mpr hi⟩

/-- The calls are as the catalog describes them, and the instruments are those that are found
for the calls, in order. -/
structure Gathers (calls : List Expression) (carried : List Instrument) : Prop where
  described : ∀ call ∈ calls, call.IsDescribed
  carried_eq : carried = calls.filterMap (·.instrument?)

namespace Gathers

variable {calls calls' : List Expression} {carried carried' : List Instrument}

theorem nil : Gathers [] [] := ⟨List.forall_mem_nil _, rfl⟩

theorem cons {call : Expression} (hcall : call.IsDescribed) (h : Gathers calls carried) :
    Gathers (call :: calls) (call.instrument?.toList ++ carried) := by
  refine ⟨List.forall_mem_cons.mpr ⟨hcall, h.described⟩, ?_⟩
  rw [List.filterMap_cons, h.carried_eq]
  cases call.instrument? <;> rfl

theorem append (h : Gathers calls carried) (h' : Gathers calls' carried') :
    Gathers (calls ++ calls') (carried ++ carried') := by
  refine ⟨List.forall_mem_append.mpr ⟨h.described, h'.described⟩, ?_⟩
  rw [List.filterMap_append, h.carried_eq, h'.carried_eq]

theorem all {es : List Expression} (h : ∀ e ∈ es, Gathers e.calls e.carried) :
    Gathers (Expression.callsOfAll es) (Expression.carriedByAll es) := by
  induction es with
  | nil => exact nil
  | cons e es ih =>
    obtain ⟨he, hes⟩ := List.forall_mem_cons.mp h
    exact he.append (ih hes)

theorem conditional {condition : Expression} {thenBranch : List Expression}
    {elseBranch : Option (List Expression)} (hcondition : Gathers condition.calls condition.carried)
    (hthen : ∀ e ∈ thenBranch, Gathers e.calls e.carried)
    (helse : ∀ es, elseBranch = some es → ∀ e ∈ es, Gathers e.calls e.carried) :
    Gathers (Expression.conditional condition thenBranch elseBranch).calls
      (Expression.conditional condition thenBranch elseBranch).carried := by
  cases elseBranch with
  | none => exact hcondition.append (all hthen)
  | some es => exact (hcondition.append (all hthen)).append (all (helse es rfl))

theorem fields {fields : List (String × FieldValue)}
    (h : ∀ f ∈ fields, Gathers f.2.calls f.2.carried) :
    Gathers (FieldValue.callsOfFields fields) (FieldValue.carriedByFields fields) := by
  induction fields with
  | nil => exact nil
  | cons f fields ih =>
    obtain ⟨hf, hfields⟩ := List.forall_mem_cons.mp h
    exact hf.append (ih hfields)

end Gathers

/-- Fields of the kind have nothing inside. -/
def FieldKind.isAtomic : FieldKind → Bool
  | .oneOf _ => true
  | .text => true
  | .identifier => true
  | _ => false

theorem Catalog.isAtomic_of_mem_shapes {specs : List FieldSpec} (h : specs ∈ shapes) :
    ∀ spec ∈ specs, spec.2.isAtomic = true := by
  have hall : ∀ specs ∈ shapes, ∀ spec ∈ specs, spec.2.isAtomic = true := by decide +kernel
  exact hall specs h

theorem FieldValue.Conforms.calls_eq_nil {kind : FieldKind} {v : FieldValue}
    (h : v.Conforms kind) (hkind : kind.isAtomic = true) : v.calls = [] := by
  cases h with
  | choice _ => rfl
  | text _ => rfl
  | identifier _ => rfl
  | _ => nomatch hkind

theorem FieldsConform.callsOfFields_eq_nil {specs : List FieldSpec}
    {fields : List (String × FieldValue)} (h : FieldsConform specs fields)
    (hspecs : specs ∈ Catalog.shapes) : FieldValue.callsOfFields fields = [] := by
  have hnone : ∀ f ∈ fields, f.2.calls = [] := by
    intro f hf
    obtain ⟨kind, hspec, hconforms⟩ : ∃ kind, (f.1, kind) ∈ specs ∧ f.2.Conforms kind :=
      h.exists_spec hf
    exact hconforms.calls_eq_nil (Catalog.isAtomic_of_mem_shapes hspecs _ hspec)
  clear h
  induction fields with
  | nil => rfl
  | cons f fields ih =>
    obtain ⟨hf, hfields⟩ := List.forall_mem_cons.mp hnone
    rw [FieldValue.callsOfFields, hf, ih hfields]
    rfl

mutual

/-- The calls of a conformant expression are as the catalog describes them, and its instruments
are theirs. -/
theorem Expression.Conformant.gathers {e : Expression} : e.Conformant → Gathers e.calls e.carried
  | .number _ => .nil
  | .call hcontract hfields =>
    .cons ⟨_, hcontract, _, rfl, hfields⟩
      (hfields.gathers fun _ hshape => Catalog.mem_shapes hcontract hshape)
  | .conditional hcondition hthen helse =>
    .conditional hcondition.gathers (fun e he => (hthen e he).gathers)
      fun es hes e he => (helse es hes e he).gathers

theorem FieldValue.Conforms.gathers {kind : FieldKind} {v : FieldValue}
    (hshapes : ∀ shape ∈ kind.shapes, shape ∈ Catalog.shapes) :
    v.Conforms kind → Gathers v.calls v.carried
  | .expression h => h.gathers
  | .sequence _ hitems => .all fun e he => (hitems e he).gathers
  | .choice _ => .nil
  | .text _ => .nil
  | .identifier _ => .nil
  | .shape hfields => by
    rw [FieldKind.shapes_shape] at hshapes
    rw [FieldValue.calls, hfields.callsOfFields_eq_nil (hshapes _ List.mem_cons_self)]
    exact .nil
  | .optional h => h.gathers (by rwa [FieldKind.shapes] at hshapes)

theorem FieldsConform.gathers {specs : List FieldSpec} {fields : List (String × FieldValue)}
    (hshapes : ∀ shape ∈ FieldKind.shapesIn specs, shape ∈ Catalog.shapes) :
    FieldsConform specs fields →
      Gathers (FieldValue.callsOfFields fields) (FieldValue.carriedByFields fields)
  | .intro horder _ _ hvalues => .fields fun f hf => by
    have hname : f.1 ∈ specs.map (·.1) := horder.subset (List.mem_map_of_mem hf)
    obtain ⟨spec, hspec, heq⟩ := List.mem_map.mp hname
    exact (hvalues spec hspec f hf heq.symm).gathers fun shape hshape =>
      hshapes shape (FieldKind.mem_shapesIn hspec hshape)

end

/-! ### First occurrences -/

section firstOccurrences

variable {α β : Type} [BEq β] [LawfulBEq β] (f : α → Option β)

/-- What one more element adds, unless it is there already. -/
theorem eraseDups_filterMap_concat (l : List α) (a : α) :
    ((l ++ [a]).filterMap f).eraseDups = (l.filterMap f).eraseDups ∨
      ∃ b, b ∉ l.filterMap f ∧
        ((l ++ [a]).filterMap f).eraseDups = (l.filterMap f).eraseDups ++ [b] := by
  rw [List.filterMap_append, List.eraseDups_append]
  cases hb : f a with
  | none => exact .inl (by simp [hb, List.removeAll])
  | some b =>
    by_cases hmem : b ∈ l.filterMap f
    · exact .inl (by simp_all [List.removeAll])
    · exact .inr ⟨b, hmem, by simp_all [List.removeAll, List.eraseDups_cons]⟩

/-- Of two different values, the one that comes first is among those of an initial part that
does not have the other. -/
theorem pairwise_eraseDups_filterMap (l : List α) :
    (l.filterMap f).eraseDups.Pairwise fun b c =>
      ∃ before after, l = before ++ after ∧ b ∈ before.filterMap f ∧ c ∉ before.filterMap f := by
  induction l using List.reverseRecOn with
  | nil => exact .nil
  | append_singleton l a ih =>
    have hold : (l.filterMap f).eraseDups.Pairwise fun b c =>
        ∃ before after, l ++ [a] = before ++ after ∧ b ∈ before.filterMap f ∧
          c ∉ before.filterMap f := by
      refine ih.imp ?_
      rintro b c ⟨before, after, rfl, hb, hc⟩
      exact ⟨before, after ++ [a], List.append_assoc _ _ _, hb, hc⟩
    rcases eraseDups_filterMap_concat f l a with heq | ⟨c, hc, heq⟩
    · rwa [heq]
    · rw [heq, List.pairwise_append]
      refine ⟨hold, List.pairwise_singleton _ _, ?_⟩
      intro b hb c' hc'
      rw [List.mem_singleton.mp hc']
      exact ⟨l, [a], rfl, List.mem_eraseDups.mp hb, hc⟩

end firstOccurrences

/-! ### One list for all calls -/

/-- Add an instrument, if there is one, to a list that does not have it. -/
def Instrument.note (found : List Instrument) : Option Instrument → List Instrument
  | none => found
  | some i => if i ∈ found then found else found ++ [i]

mutual

/-- Walk through an expression with a list of instruments, and add those that are new. -/
def Expression.collect (found : List Instrument) : Expression → List Instrument
  | .number _ => found
  | .call _ fields =>
    FieldValue.collectFields (Instrument.note found (Instrument.ofCall? fields)) fields
  | .conditional condition thenBranch none =>
    Expression.collectAll (condition.collect found) thenBranch
  | .conditional condition thenBranch (some elseBranch) =>
    Expression.collectAll (Expression.collectAll (condition.collect found) thenBranch) elseBranch

def Expression.collectAll (found : List Instrument) : List Expression → List Instrument
  | [] => found
  | e :: rest => Expression.collectAll (e.collect found) rest

def FieldValue.collect (found : List Instrument) : FieldValue → List Instrument
  | .expression e => e.collect found
  | .sequence items => Expression.collectAll found items
  | .choice _ => found
  | .text _ => found
  | .shape _ => found

def FieldValue.collectFields (found : List Instrument) :
    List (String × FieldValue) → List Instrument
  | [] => found
  | (_, value) :: rest => FieldValue.collectFields (value.collect found) rest

end

theorem Instrument.note_eraseDups (l : List Instrument) (i : Option Instrument) :
    note l.eraseDups i = (l ++ i.toList).eraseDups := by
  cases i with
  | none => simp [note]
  | some i =>
    rw [note, List.eraseDups_append]
    by_cases h : i ∈ l
    · simp [h, List.removeAll]
    · simp [h, List.removeAll, List.eraseDups_cons]

mutual

theorem Expression.collect_eraseDups (l : List Instrument) : ∀ e : Expression,
    e.collect l.eraseDups = (l ++ e.carried).eraseDups
  | .number _ => by rw [Expression.collect, Expression.carried, List.append_nil]
  | .call _ fields => by
    rw [Expression.collect, Expression.carried, Instrument.note_eraseDups,
      FieldValue.collectFields_eraseDups, List.append_assoc]
  | .conditional condition thenBranch none => by
    rw [Expression.collect, Expression.carried, condition.collect_eraseDups,
      Expression.collectAll_eraseDups, List.append_assoc]
  | .conditional condition thenBranch (some elseBranch) => by
    rw [Expression.collect, Expression.carried, condition.collect_eraseDups,
      Expression.collectAll_eraseDups, Expression.collectAll_eraseDups, List.append_assoc,
      List.append_assoc, List.append_assoc]

theorem Expression.collectAll_eraseDups (l : List Instrument) : ∀ es : List Expression,
    Expression.collectAll l.eraseDups es = (l ++ Expression.carriedByAll es).eraseDups
  | [] => by rw [Expression.collectAll, Expression.carriedByAll, List.append_nil]
  | e :: es => by
    rw [Expression.collectAll, Expression.carriedByAll, e.collect_eraseDups,
      Expression.collectAll_eraseDups, List.append_assoc]

theorem FieldValue.collect_eraseDups (l : List Instrument) : ∀ v : FieldValue,
    v.collect l.eraseDups = (l ++ v.carried).eraseDups
  | .expression e => by rw [FieldValue.collect, FieldValue.carried, e.collect_eraseDups]
  | .sequence items => by
    rw [FieldValue.collect, FieldValue.carried, Expression.collectAll_eraseDups]
  | .choice _ => by rw [FieldValue.collect, FieldValue.carried, List.append_nil]
  | .text _ => by rw [FieldValue.collect, FieldValue.carried, List.append_nil]
  | .shape _ => by rw [FieldValue.collect, FieldValue.carried, List.append_nil]

theorem FieldValue.collectFields_eraseDups (l : List Instrument) :
    ∀ fields : List (String × FieldValue), FieldValue.collectFields l.eraseDups fields
      = (l ++ FieldValue.carriedByFields fields).eraseDups
  | [] => by rw [FieldValue.collectFields, FieldValue.carriedByFields, List.append_nil]
  | (_, value) :: rest => by
    rw [FieldValue.collectFields, FieldValue.carriedByFields, value.collect_eraseDups,
      FieldValue.collectFields_eraseDups, List.append_assoc]

end

/-- The instruments of a strategy are what one list has after a walk. -/
theorem Strategy.instruments_eq_collect (s : Strategy) :
    s.instruments = s.root.toExpression.collect [] :=
  (Expression.collect_eraseDups [] s.root.toExpression).symm

/-! ### Instruments -/

namespace Strategy

/-- **The instruments of a strategy that was read are those of its calls.**  They are different,
none is missing and none is made up, and they come in the order of the first calls that carry
them. -/
theorem instruments_of_ofJson? {policy : Policy} {document : Json} {s : Strategy}
    (h : Strategy.ofJson? policy document = .ok s) :
    (∀ call ∈ s.calls, ∃ contract ∈ Catalog.all, ∃ fields,
      call = .call contract.name fields ∧ FieldsConform contract.fields fields ∧
        (∀ i, call.instrument? = some i ↔ call.Carries i) ∧
        ("instrument" ∈ contract.fieldNames → ∃ i, call.instrument? = some i)) ∧
    s.instruments.Nodup ∧
    (∀ i, i ∈ s.instruments ↔ ∃ call ∈ s.calls, call.Carries i) ∧
    s.instruments.Pairwise fun i j => ∃ before after, s.calls = before ++ after ∧
      (∃ call ∈ before, call.Carries i) ∧ ¬∃ call ∈ before, call.Carries j := by
  have hgathers : Gathers s.calls s.root.toExpression.carried :=
    (Strategy.conformant_of_ofJson? h).gathers
  have hinstruments : s.instruments = (s.calls.filterMap (·.instrument?)).eraseDups :=
    congrArg List.eraseDups hgathers.carried_eq
  have horder := pairwise_eraseDups_filterMap (·.instrument?) s.calls
  rw [hinstruments]
  refine ⟨?calls, ?distinct, ?complete, ?order⟩
  case calls =>
    intro call hcall
    obtain ⟨contract, hcontract, fields, rfl, hfields⟩ := hgathers.described call hcall
    exact ⟨contract, hcontract, fields, rfl, hfields,
      fun i => Catalog.instrument?_eq_some_iff hcontract hfields,
      Catalog.exists_instrument? hcontract hfields⟩
  case distinct =>
    refine horder.imp ?_
    rintro i j ⟨before, _, _, hi, hj⟩ rfl
    exact hj hi
  case complete =>
    intro i
    rw [List.mem_eraseDups, Expression.mem_filterMap_instrument?_iff hgathers.described]
  case order =>
    refine horder.imp ?_
    rintro i j ⟨before, after, hcalls, hi, hj⟩
    have hbefore : ∀ call ∈ before, call.IsDescribed := fun call hcall =>
      hgathers.described call (hcalls ▸ List.mem_append_left after hcall)
    rw [Expression.mem_filterMap_instrument?_iff hbefore] at hi hj
    exact ⟨before, after, hcalls, hi, hj⟩

/-- A document with three orders for two instruments. -/
def threeOrders : Json :=
  let order := fun ticker type => Json.object [("function", .string "Place Market Order"),
    ("exchange", .string "NSE"),
    ("instrument", .object [("name", .string "Reliance"), ("ticker", .string ticker),
      ("type", .string type)]),
    ("quantity", .number (.integer 1))]
  .object [("name", .string "orders"), ("author", .string "nobody"),
    ("strategy", .object [("function", .string conditionalWord), ("if", .number (.integer 1)),
      ("then", .array [order "REL" "equity", order "RELF" "futures"]),
      ("else", .array [order "REL" "equity"])])]

/-- The instrument of the first and the last order is listed once. -/
theorem instruments_threeOrders :
    ∃ s, Strategy.ofJson? ⟨true, 3, true⟩ threeOrders = .ok s ∧ s.calls.length = 3 ∧
      s.instruments = [⟨"Reliance", "REL", .equity⟩, ⟨"Reliance", "RELF", .futures⟩] ∧
      s.instruments.Nodup ∧ ∀ i, i ∈ s.instruments ↔ ∃ call ∈ s.calls, call.Carries i := by
  obtain ⟨s, hread, hcalls, hfound⟩ : ∃ s, Strategy.ofJson? ⟨true, 3, true⟩ threeOrders = .ok s ∧
      s.calls.length = 3 ∧
      s.instruments = [⟨"Reliance", "REL", .equity⟩, ⟨"Reliance", "RELF", .futures⟩] :=
    ⟨_, rfl, rfl, rfl⟩
  obtain ⟨-, hdistinct, hcomplete, -⟩ := instruments_of_ofJson? hread
  exact ⟨s, hread, hcalls, hfound, hdistinct, hcomplete⟩

end Strategy

end StrategyDoc
