import StrategyDoc.Proofs.Conformance
import StrategyDoc.Proofs.DecimalText
import StrategyDoc.Strategy.Display

/-! # Formulas are read in one way

The formula of a conformant expression determines the expression
(`Expression.text_identifies`), although conditionals have no brackets around them, choices no
quotes, and operators look like signs of numbers.

What carries the proof is that a formula shows where it ends (`Separable`): if two texts begin
with formulas, and each goes on with something that can follow a formula (`Ends`), then equal
texts have equal formulas and equal rests.  The first two characters tell numbers, calls and
conditionals apart (`Form.ofChars`), and nothing that follows a formula looks like a second
branch, so it is known whether there is one. -/

namespace StrategyDoc

/-! ### What follows a formula -/

/-- The characters that close a list. -/
def closers : List Char := [')', ']', '\x7d']

theorem closers_cases {c : Char} (h : c ∈ closers) : c = ')' ∨ c = ']' ∨ c = '\x7d' := by
  simpa [closers] using h

/-- What can follow a formula: another item, the end of the list, the actions of a conditional,
or nothing. -/
inductive Ends : List Char → Prop
  | nil : Ends []
  | item (rest : List Char) : Ends (',' :: rest)
  | close {c : Char} (hc : c ∈ closers) (rest : List Char) : Ends (c :: rest)
  | actions (rest : List Char) : Ends (" THEN [".toList ++ rest)

/-- A class of characters without those that can follow a formula. -/
theorem Ends.stops {p : Char → Bool} {rest : List Char} (h : Ends rest)
    (hnone : (' ' :: ',' :: closers).any p = false) : Stops p rest := by
  have hp : ∀ c ∈ ' ' :: ',' :: closers, p c = false := by simpa using hnone
  cases h with
  | nil => exact stops_nil
  | item => exact stops_cons.mpr (hp ',' (by decide))
  | close hc => exact stops_cons.mpr (hp _ (.tail _ (.tail _ hc)))
  | actions => exact stops_cons.mpr (hp ' ' (by decide))

/-- A second branch does not follow a formula. -/
theorem Ends.not_otherwise {rest : List Char} : ¬ Ends (" ELSE [".toList ++ rest) := by
  intro h
  generalize htext : " ELSE [".toList ++ rest = text at h
  cases h with
  | nil => cases htext
  | item => exact absurd (List.cons.inj htext).1 (by decide)
  | close hc =>
      rw [← (List.cons.inj htext).1] at hc
      exact absurd hc (by decide)
  | actions => exact absurd (List.cons.inj (List.cons.inj htext).2).1 (by decide)

/-- The text of the value, in front of what can follow it, determines the value and what
follows. -/
def Separable {α : Type} (text : α → String) (Good : α → Prop) (a : α) : Prop :=
  ∀ b rest rest', Good b → Ends rest → Ends rest' →
    (text a).toList ++ rest = (text b).toList ++ rest' → a = b ∧ rest = rest'

/-- The text does not start like the end of a list. -/
def Opens (text : String) : Prop :=
  ∀ rest close rest', close ∈ closers → text.toList ++ rest ≠ close :: rest'

/-! ### Lists -/

section lists

variable {α : Type} {text : α → String} {Good : α → Prop}

/-- The items behind the first. -/
def rowAfter (text : α → String) : List α → List Char
  | [] => []
  | a :: as => ',' :: ' ' :: ((text a).toList ++ rowAfter text as)

/-- The items of a list, with commas between them. -/
def row (text : α → String) : List α → List Char
  | [] => []
  | a :: as => (text a).toList ++ rowAfter text as

theorem rowAfter_cons_append (a : α) (as : List α) (rest : List Char) :
    rowAfter text (a :: as) ++ rest
      = ',' :: ' ' :: ((text a).toList ++ (rowAfter text as ++ rest)) := by
  rw [rowAfter, List.cons_append, List.cons_append, List.append_assoc]

theorem toList_intercalate (text : α → String) (as : List α) :
    (", ".intercalate (as.map text)).toList = row text as := by
  have hafter : ∀ (start : String) (as : List α),
      (", ".intercalate (start :: as.map text)).toList = start.toList ++ rowAfter text as := by
    intro start as
    induction as generalizing start with
    | nil => simp [rowAfter]
    | cons a as ih =>
        have hmore := ih (text a)
        rw [String.toList_intercalate] at hmore ⊢
        simp only [List.map_cons, List.intercalate_cons_cons] at hmore ⊢
        rw [rowAfter, ← hmore]
        simp
  cases as with
  | nil => rfl
  | cons a as => exact hafter (text a) as

variable {as bs : List α} {close : Char} {rest rest' : List Char} (hclose : close ∈ closers)
  (has : ∀ a ∈ as, Separable text Good a) (hbs : ∀ b ∈ bs, Good b)

include hclose

theorem ends_rowAfter (as : List α) (rest : List Char) :
    Ends (rowAfter text as ++ close :: rest) := by
  cases as with
  | nil => exact .close hclose rest
  | cons a as => exact .item _

include has hbs

theorem rowAfter_append_inj
    (h : rowAfter text as ++ close :: rest = rowAfter text bs ++ close :: rest') :
    as = bs ∧ rest = rest' := by
  have hcomma : close ≠ ',' := by
    rintro rfl
    exact absurd hclose (by decide)
  induction as generalizing bs with
  | nil =>
      cases bs with
      | nil => exact ⟨rfl, (List.cons.inj h).2⟩
      | cons b bs => exact absurd (List.cons.inj h).1 hcomma
  | cons a as ih =>
      cases bs with
      | nil => exact absurd (List.cons.inj h).1.symm hcomma
      | cons b bs =>
          obtain ⟨ha, hmore⟩ := List.forall_mem_cons.mp has
          obtain ⟨hb, hmore'⟩ := List.forall_mem_cons.mp hbs
          rw [rowAfter_cons_append, rowAfter_cons_append, List.cons.injEq, List.cons.injEq] at h
          obtain ⟨hitem, htail⟩ :=
            ha b _ _ hb (ends_rowAfter hclose as rest) (ends_rowAfter hclose bs rest') h.2.2
          obtain ⟨hitems, hrest⟩ := ih hmore hmore' htail
          exact ⟨by rw [hitem, hitems], hrest⟩

/-- **A closed list determines its items.** -/
theorem row_append_inj (hopens : ∀ a ∈ as, Opens (text a)) (hopens' : ∀ b ∈ bs, Opens (text b))
    (h : row text as ++ close :: rest = row text bs ++ close :: rest') :
    as = bs ∧ rest = rest' := by
  cases as with
  | nil =>
      cases bs with
      | nil => exact ⟨rfl, (List.cons.inj h).2⟩
      | cons b bs =>
          rw [row, row, List.append_assoc] at h
          exact absurd h.symm (hopens' b List.mem_cons_self _ _ _ hclose)
  | cons a as =>
      cases bs with
      | nil =>
          rw [row, row, List.append_assoc] at h
          exact absurd h (hopens a List.mem_cons_self _ _ _ hclose)
      | cons b bs =>
          obtain ⟨ha, hmore⟩ := List.forall_mem_cons.mp has
          obtain ⟨hb, hmore'⟩ := List.forall_mem_cons.mp hbs
          rw [row, row, List.append_assoc, List.append_assoc] at h
          obtain ⟨hitem, htail⟩ :=
            ha b _ _ hb (ends_rowAfter hclose as rest) (ends_rowAfter hclose bs rest') h
          obtain ⟨hitems, hrest⟩ := rowAfter_append_inj hclose hmore hmore' htail
          exact ⟨by rw [hitem, hitems], hrest⟩

end lists

/-! ### Texts of expressions -/

namespace FieldValue

/-- A field with its name. -/
def named (f : String × FieldValue) : String := f.1 ++ "=" ++ f.2.display

theorem namedTexts_eq_map (fields : List (String × FieldValue)) :
    namedTexts fields = fields.map named := by
  induction fields with
  | nil => rfl
  | cons f fields ih => rw [namedTexts, List.map_cons, ih, named]

theorem toList_named (f : String × FieldValue) :
    (named f).toList = f.1.toList ++ '=' :: f.2.display.toList := by
  simp [named]

end FieldValue

namespace Expression

open FieldValue

theorem texts_eq_map (es : List Expression) : texts es = es.map text := by
  induction es with
  | nil => rfl
  | cons e es ih => rw [texts, List.map_cons, ih]

/-- What stands in the brackets of a call. -/
def argumentChars : List (String × FieldValue) → List Char
  | [("args", .sequence items)] => row text items
  | fields => row named fields

theorem argumentChars_of_not_mem {fields : List (String × FieldValue)}
    (h : "args" ∉ fields.map (·.1)) : argumentChars fields = row named fields := by
  unfold argumentChars
  split
  · exact absurd List.mem_cons_self h
  · rfl

theorem text_call_append (function : String) (fields : List (String × FieldValue))
    (rest : List Char) :
    (call function fields).text.toList ++ rest
      = function.toList ++ '(' :: (argumentChars fields ++ ')' :: rest) := by
  unfold argumentChars
  split
  · next items =>
      rw [text, texts_eq_map, ← toList_intercalate]
      simp
  · next hother =>
      rw [text, namedTexts_eq_map, ← toList_intercalate]
      · simp
      · exact hother

/-- What stands behind the actions of a conditional. -/
def otherwiseChars : Option (List Expression) → List Char
  | none => []
  | some es => " ELSE [".toList ++ (row text es ++ [']'])

theorem otherwiseChars_some_append (es : List Expression) (rest : List Char) :
    otherwiseChars (some es) ++ rest = " ELSE [".toList ++ (row text es ++ ']' :: rest) := by
  show " ELSE [".toList ++ (row text es ++ [']']) ++ rest = _
  rw [List.append_assoc, List.append_assoc, List.singleton_append]

theorem text_conditional_append (condition : Expression) (thenBranch : List Expression)
    (elseBranch : Option (List Expression)) (rest : List Char) :
    (conditional condition thenBranch elseBranch).text.toList ++ rest
      = "IF ".toList ++ (condition.text.toList ++ (" THEN [".toList
        ++ (row text thenBranch ++ ']' :: (otherwiseChars elseBranch ++ rest)))) := by
  cases elseBranch with
  | none =>
      show _ = "IF ".toList ++ (condition.text.toList ++ (" THEN [".toList
        ++ (row text thenBranch ++ ']' :: rest)))
      rw [text.eq_4, texts_eq_map, ← toList_intercalate text thenBranch]
      simp
  | some es =>
      rw [text.eq_5, texts_eq_map, texts_eq_map, ← toList_intercalate text thenBranch,
        otherwiseChars_some_append, ← toList_intercalate text es]
      simp

end Expression

/-! ### The forms of expressions -/

/-- The forms of expressions. -/
inductive Form where
  | number
  | call
  | conditional
deriving DecidableEq

/-- The form of the expression whose formula starts a text, by the first two characters. -/
def Form.ofChars : List Char → Option Form
  | [] => none
  | c :: rest =>
    if c = 'I' ∧ rest.head? = some 'F' then some .conditional
    else if Json.isDigit c ∨ (c = '-' ∧ rest.head?.any Json.isDigit) then some .number
    else if c ∈ closers then none
    else some .call

def Expression.form : Expression → Form
  | number _ => .number
  | call _ _ => .call
  | conditional _ _ _ => .conditional

namespace Form

theorem ofChars_close {close : Char} (hclose : close ∈ closers) (rest : List Char) :
    ofChars (close :: rest) = none := by
  rcases closers_cases hclose with rfl | rfl | rfl <;> rfl

/-- Only the first two characters matter. -/
theorem ofChars_append {start : List Char} (h : 2 ≤ start.length) (rest : List Char) :
    ofChars (start ++ rest) = ofChars start := by
  match start with
  | [] => cases h
  | [_] => exact absurd h (by simp)
  | _ :: _ :: _ => rfl

theorem ofChars_number (n : Json.Number) (rest : List Char) :
    ofChars (n.text ++ rest) = some .number := by
  obtain ⟨d, more, hd, htext⟩ := n.exists_text_eq_cons
  have hword : d ≠ 'I' := by
    rintro rfl
    cases hd
  rcases htext with htext | htext
  · simp [htext, ofChars, hword, hd]
  · simp [htext, ofChars, hd]

/-- The names of functions have no brackets, and look like calls in front of one. -/
theorem ofChars_name {contract : Contract} (hcontract : contract ∈ Catalog.all) :
    '(' ∉ contract.name.toList ∧ 2 ≤ (contract.name.toList ++ ['(']).length
      ∧ ofChars (contract.name.toList ++ ['(']) = some .call := by
  have hall : ∀ contract ∈ Catalog.all, '(' ∉ contract.name.toList
      ∧ 2 ≤ (contract.name.toList ++ ['(']).length
      ∧ ofChars (contract.name.toList ++ ['(']) = some .call := by decide +kernel
  exact hall contract hcontract

theorem ofChars_call {contract : Contract} (hcontract : contract ∈ Catalog.all)
    (rest : List Char) : ofChars (contract.name.toList ++ '(' :: rest) = some .call := by
  obtain ⟨-, hlength, hform⟩ := ofChars_name hcontract
  rw [List.append_cons, ofChars_append hlength, hform]

end Form

namespace Expression

variable {e e' : Expression} {rest rest' : List Char}

/-- **The form of an expression shows at the start of its formula.** -/
theorem Conformant.ofChars_text (h : e.Conformant) (rest : List Char) :
    Form.ofChars (e.text.toList ++ rest) = some e.form := by
  cases h with
  | number n =>
      rw [text.eq_1, String.toList_ofList]
      exact Form.ofChars_number n rest
  | call hcontract =>
      rw [text_call_append]
      exact Form.ofChars_call hcontract _
  | conditional =>
      rw [text_conditional_append]
      rfl

theorem Conformant.opens (h : e.Conformant) : Opens e.text := by
  intro rest close rest' hclose heq
  have hform := h.ofChars_text rest
  rw [heq, Form.ofChars_close hclose] at hform
  cases hform

theorem Conformant.form_eq (h : e.Conformant) (h' : e'.Conformant)
    (heq : e.text.toList ++ rest = e'.text.toList ++ rest') : e.form = e'.form := by
  have hform := h.ofChars_text rest
  rw [heq, h'.ofChars_text] at hform
  exact (Option.some.inj hform).symm

end Expression

/-! ### Names and choices -/

mutual

/-- Field names are names of variables, and choices are made of their characters. -/
def FieldKind.Legible : FieldKind → Bool
  | .oneOf allowed => allowed.all fun s => s.toList.all isNamePart
  | .shape specs => FieldKind.AllLegible specs
  | .optional inner => inner.Legible
  | _ => true

def FieldKind.AllLegible : List (String × FieldKind) → Bool
  | [] => true
  | (name, kind) :: rest => isIdentifier name && kind.Legible && FieldKind.AllLegible rest

end

namespace FieldKind

theorem legible_of_mem {specs : List FieldSpec} (h : AllLegible specs = true) {spec : FieldSpec}
    (hspec : spec ∈ specs) : isIdentifier spec.1 = true ∧ spec.2.Legible = true := by
  induction specs with
  | nil => cases hspec
  | cons first specs ih =>
      rw [AllLegible, Bool.and_eq_true, Bool.and_eq_true] at h
      rcases List.mem_cons.mp hspec with rfl | hspec
      · exact h.1
      · exact ih h.2 hspec

end FieldKind

theorem Catalog.allLegible_fields {contract : Contract} (h : contract ∈ all) :
    FieldKind.AllLegible contract.fields = true := by
  have hall : ∀ contract ∈ all, FieldKind.AllLegible contract.fields = true := by decide +kernel
  exact hall contract h

/-! ### Separable values -/

/-- The display of the value determines it among the values of the kind, and so do the formulas
of its items. -/
structure FieldValue.Separates (kind : FieldKind) (v : FieldValue) : Prop where
  display : Separable FieldValue.display (FieldValue.Conforms kind) v
  items : ∀ es, v = .sequence es → ∀ e ∈ es,
    Separable Expression.text Expression.Conformant e

/-- Characters of a class that ends with a formula can be told from what follows. -/
theorem append_inj_of_ends {p : Char → Bool} {part part' rest rest' : List Char}
    (hp : (' ' :: ',' :: closers).any p = false) (hpart : ∀ c ∈ part, p c = true)
    (hpart' : ∀ c ∈ part', p c = true) (hrest : Ends rest) (hrest' : Ends rest')
    (h : part ++ rest = part' ++ rest') : part = part' ∧ rest = rest' :=
  append_inj_of_stops hpart hpart' (hrest.stops hp) (hrest'.stops hp) h

section fields

open FieldValue

variable {specs : List FieldSpec} {fields fields' : List (String × FieldValue)}

/-- The field has a declared name, and is what its kind asks for. -/
def Fits (specs : List FieldSpec) (f : String × FieldValue) : Prop :=
  f.1 ∈ specs.map (·.1) ∧ ∀ spec ∈ specs, f.1 = spec.1 → f.2.Conforms spec.2

theorem FieldsConform.fits (h : FieldsConform specs fields) : ∀ f ∈ fields, Fits specs f := by
  obtain ⟨horder, _, _, hvalues⟩ := h
  exact fun f hf => ⟨horder.subset (List.mem_map_of_mem hf),
    fun spec hspec heq => hvalues spec hspec f hf heq⟩

variable (hspecs : FieldKind.AllLegible specs = true)

include hspecs

theorem isVariableName_of_fits {f : String × FieldValue} (hf : Fits specs f) :
    IsVariableName f.1 := by
  obtain ⟨spec, hspec, heq⟩ := List.mem_map.mp hf.1
  rw [← heq]
  exact (isIdentifier_iff _).mp (FieldKind.legible_of_mem hspecs hspec).1

theorem opens_named {f : String × FieldValue} (hf : Fits specs f) : Opens (named f) := by
  intro rest close rest' hclose heq
  obtain ⟨first, more, hcons, hfirst, -⟩ := isVariableName_of_fits hspecs hf
  have hstart : isNameStart close = false := by
    rcases closers_cases hclose with rfl | rfl | rfl <;> rfl
  rw [toList_named, hcons] at heq
  rw [← (List.cons.inj heq).1, (isNameStart_iff first).mpr hfirst] at hstart
  cases hstart

/-- The name of a field tells its kind. -/
theorem separable_named {f : String × FieldValue} (hf : Fits specs f)
    (hvalue : ∀ spec ∈ specs, f.1 = spec.1 → f.2.Separates spec.2) :
    Separable named (Fits specs) f := by
  intro g rest rest' hg hrest hrest' heq
  rw [toList_named, toList_named, List.append_assoc, List.append_assoc] at heq
  obtain ⟨hname, hmore⟩ := append_inj_of_stops
    (isVariableName_of_fits hspecs hf).isNamePart_of_mem
    (isVariableName_of_fits hspecs hg).isNamePart_of_mem
    (stops_cons.mpr rfl) (stops_cons.mpr rfl) heq
  have hname : f.1 = g.1 := String.toList_inj.mp hname
  obtain ⟨spec, hspec, hspecName⟩ := List.mem_map.mp hf.1
  obtain ⟨hdisplay, htail⟩ := (hvalue spec hspec hspecName.symm).display g.2 rest rest'
    (hg.2 spec hspec (hname.symm.trans hspecName.symm)) hrest hrest' (List.cons.inj hmore).2
  exact ⟨Prod.ext hname hdisplay, htail⟩

/-- Fields in brackets are determined. -/
theorem named_append_inj {close : Char} {rest rest' : List Char}
    (hclose : close ∈ closers) (hfields : FieldsConform specs fields)
    (hfields' : FieldsConform specs fields')
    (hvalues : ∀ spec ∈ specs, ∀ f ∈ fields, f.1 = spec.1 → f.2.Separates spec.2)
    (h : row named fields ++ close :: rest = row named fields' ++ close :: rest') :
    fields = fields' ∧ rest = rest' := by
  have hseparable : ∀ f ∈ fields, Separable named (Fits specs) f := fun f hf =>
    separable_named hspecs (hfields.fits f hf) fun spec hspec => hvalues spec hspec f hf
  exact row_append_inj hclose hseparable hfields'.fits
    (fun f hf => opens_named hspecs (hfields.fits f hf))
    (fun f hf => opens_named hspecs (hfields'.fits f hf)) h

end fields

/-- Expressions in brackets are determined. -/
theorem text_append_inj {es es' : List Expression} {close : Char} {rest rest' : List Char}
    (hclose : close ∈ closers) (hes : ∀ e ∈ es, e.Conformant) (hes' : ∀ e ∈ es', e.Conformant)
    (hitems : ∀ e ∈ es, Separable Expression.text Expression.Conformant e)
    (h : row Expression.text es ++ close :: rest = row Expression.text es' ++ close :: rest') :
    es = es' ∧ rest = rest' :=
  row_append_inj hclose hitems hes' (fun e he => (hes e he).opens)
    (fun e he => (hes' e he).opens) h

/-! ### Contracts with a list of arguments -/

/-- The only field is a list of arguments. -/
def takesArguments : List FieldSpec → Bool
  | [("args", .sequence _)] => true
  | _ => false

theorem takesArguments_iff {specs : List FieldSpec} :
    takesArguments specs = true ↔ ∃ length, specs = [("args", .sequence length)] := by
  unfold takesArguments
  split
  · next length => exact ⟨fun _ => ⟨length, rfl⟩, fun _ => rfl⟩
  · next hother => exact ⟨nofun, fun ⟨length, h⟩ => absurd h (hother length)⟩

/-- A contract has arguments alone, or none. -/
theorem Catalog.arguments_cases {contract : Contract} (h : contract ∈ all) :
    (∃ length, contract.fields = [("args", .sequence length)])
      ∨ "args" ∉ contract.fields.map (·.1) := by
  have hall : ∀ contract ∈ all, takesArguments contract.fields = true
      ∨ "args" ∉ contract.fields.map (·.1) := by decide +kernel
  exact (hall contract h).imp_left takesArguments_iff.mp

theorem FieldsConform.exists_arguments {length : Option Nat} {fields : List (String × FieldValue)}
    (h : FieldsConform [("args", .sequence length)] fields) :
    ∃ es, fields = [("args", .sequence es)] ∧ ∀ e ∈ es, e.Conformant := by
  obtain ⟨horder, _, hrequired, hvalues⟩ := h
  have hargs : "args" ∈ fields.map (·.1) := hrequired _ List.mem_cons_self rfl
  rcases List.sublist_singleton.mp horder with hnone | hone
  · rw [hnone] at hargs
    cases hargs
  · obtain ⟨⟨name, v⟩, rfl, rfl⟩ := List.map_eq_singleton_iff.mp hone
    cases hvalues _ List.mem_cons_self _ List.mem_cons_self rfl with
    | sequence _ hitems => exact ⟨_, rfl, hitems⟩

/-! ### The cases -/

section cases

open Expression

theorem separable_number (n : Json.Number) : Separable text Conformant (.number n) := by
  intro b rest rest' hb hrest hrest' heq
  have hform := (Conformant.number n).form_eq hb heq
  cases hb with
  | number n' =>
      rw [text.eq_1, text.eq_1, String.toList_ofList, String.toList_ofList] at heq
      obtain ⟨htext, htail⟩ := append_inj_of_ends (by decide) n.isNumberChar_of_mem_text
        n'.isNumberChar_of_mem_text hrest hrest' heq
      exact ⟨congrArg Expression.number (Json.Number.text_injective htext), htail⟩
  | call => cases hform
  | conditional => cases hform

theorem separable_call {contract : Contract} {fields : List (String × FieldValue)}
    (hcontract : contract ∈ Catalog.all) (hfields : FieldsConform contract.fields fields)
    (hvalues : ∀ spec ∈ contract.fields, ∀ f ∈ fields, f.1 = spec.1 → f.2.Separates spec.2) :
    Separable text Conformant (.call contract.name fields) := by
  intro b rest rest' hb hrest hrest' heq
  have hform := (Conformant.call hcontract hfields).form_eq hb heq
  have hclose : ')' ∈ closers := by decide
  cases hb with
  | number => cases hform
  | conditional => cases hform
  | @call contract' fields' hcontract' hfields' =>
      rw [text_call_append, text_call_append] at heq
      have hname : ∀ contract ∈ Catalog.all, ∀ c ∈ contract.name.toList, (c != '(') = true := by
        intro contract hcontract c hc
        refine bne_iff_ne.mpr ?_
        rintro rfl
        exact (Form.ofChars_name hcontract).1 hc
      obtain ⟨hnames, hbrackets⟩ := append_inj_of_stops (hname contract hcontract)
        (hname contract' hcontract') (stops_cons.mpr rfl) (stops_cons.mpr rfl) heq
      obtain rfl := Catalog.eq_of_name_eq hcontract hcontract' (String.toList_inj.mp hnames)
      have harguments := (List.cons.inj hbrackets).2
      rcases Catalog.arguments_cases hcontract with ⟨length, hspecs⟩ | hnone
      · rw [hspecs] at hfields hfields' hvalues
        obtain ⟨es, rfl, hes⟩ := hfields.exists_arguments
        obtain ⟨es', rfl, hes'⟩ := hfields'.exists_arguments
        have hitems := (hvalues _ List.mem_cons_self _ List.mem_cons_self rfl).items es rfl
        obtain ⟨rfl, htail⟩ := text_append_inj hclose hes hes' hitems harguments
        exact ⟨rfl, htail⟩
      · have hnone' := fun hmem => hnone (hfields.sublist.subset hmem)
        have hnone'' := fun hmem => hnone (hfields'.sublist.subset hmem)
        rw [argumentChars_of_not_mem hnone', argumentChars_of_not_mem hnone''] at harguments
        obtain ⟨rfl, htail⟩ := named_append_inj (Catalog.allLegible_fields hcontract) hclose
          hfields hfields' hvalues harguments
        exact ⟨rfl, htail⟩

/-- Only one of two conditionals with the same start has a second branch, if nothing that can
follow a formula looks like one. -/
theorem otherwise_append_inj {branch branch' : Option (List Expression)} {rest rest' : List Char}
    (hbranch : ∀ es, branch = some es → ∀ e ∈ es, e.Conformant)
    (hbranch' : ∀ es, branch' = some es → ∀ e ∈ es, e.Conformant)
    (hitems : ∀ es, branch = some es → ∀ e ∈ es, Separable text Conformant e)
    (hrest : Ends rest) (hrest' : Ends rest')
    (h : otherwiseChars branch ++ rest = otherwiseChars branch' ++ rest') :
    branch = branch' ∧ rest = rest' := by
  cases branch with
  | none =>
      cases branch' with
      | none => exact ⟨rfl, h⟩
      | some es' =>
          have hnone : rest = otherwiseChars (some es') ++ rest' := h
          rw [hnone, otherwiseChars_some_append] at hrest
          exact absurd hrest Ends.not_otherwise
  | some es =>
      cases branch' with
      | none =>
          have hnone : otherwiseChars (some es) ++ rest = rest' := h
          rw [← hnone, otherwiseChars_some_append] at hrest'
          exact absurd hrest' Ends.not_otherwise
      | some es' =>
          rw [otherwiseChars_some_append, otherwiseChars_some_append] at h
          obtain ⟨rfl, htail⟩ := text_append_inj (by decide) (hbranch es rfl) (hbranch' es' rfl)
            (hitems es rfl) (List.append_cancel_left h)
          exact ⟨rfl, htail⟩

theorem separable_conditional {condition : Expression} {thenBranch : List Expression}
    {elseBranch : Option (List Expression)}
    (h : (Expression.conditional condition thenBranch elseBranch).Conformant)
    (hcondition : Separable text Conformant condition)
    (hthen : ∀ e ∈ thenBranch, Separable text Conformant e)
    (helse : ∀ es, elseBranch = some es → ∀ e ∈ es, Separable text Conformant e) :
    Separable text Conformant (.conditional condition thenBranch elseBranch) := by
  intro b rest rest' hb hrest hrest' heq
  have hform := h.form_eq hb heq
  cases hb with
  | number => cases hform
  | call => cases hform
  | @conditional condition' thenBranch' elseBranch' hcondition' hthen' helse' =>
      rw [text_conditional_append, text_conditional_append] at heq
      obtain ⟨rfl, hactions⟩ := hcondition condition' _ _ hcondition' (.actions _) (.actions _)
        (List.append_cancel_left heq)
      cases h with
      | conditional _ hes helses =>
          obtain ⟨rfl, hotherwise⟩ := text_append_inj (by decide) hes hthen' hthen
            (List.append_cancel_left hactions)
          obtain ⟨rfl, htail⟩ :=
            otherwise_append_inj helses helse' helse hrest hrest' hotherwise
          exact ⟨rfl, htail⟩

end cases

/-! ### Values -/

namespace FieldValue

/-- A value without items has only to show where it ends. -/
theorem Separates.of_display {kind : FieldKind} {v : FieldValue}
    (h : Separable FieldValue.display (Conforms kind) v) (hitems : ∀ es, v ≠ .sequence es) :
    v.Separates kind :=
  ⟨h, fun es heq => absurd heq (hitems es)⟩

theorem separates_expression {e : Expression}
    (h : Separable Expression.text Expression.Conformant e) :
    (expression e).Separates .expression := by
  refine .of_display ?_ nofun
  intro w rest rest' hw hrest hrest' heq
  cases hw with
  | expression he =>
      obtain ⟨rfl, htail⟩ := h _ rest rest' he hrest hrest' heq
      exact ⟨rfl, htail⟩

theorem separates_sequence {length : Option Nat} {es : List Expression}
    (hes : ∀ e ∈ es, e.Conformant)
    (h : ∀ e ∈ es, Separable Expression.text Expression.Conformant e) :
    (sequence es).Separates (.sequence length) := by
  refine ⟨?_, fun es' heq => FieldValue.sequence.inj heq ▸ h⟩
  intro w rest rest' hw hrest hrest' heq
  cases hw with
  | @sequence _ es' _ hes' =>
      rw [display, display, Expression.texts_eq_map, Expression.texts_eq_map] at heq
      simp only [String.toList_append, toList_intercalate, List.append_assoc] at heq
      obtain ⟨rfl, htail⟩ := text_append_inj (by decide) hes hes' h (List.append_cancel_left heq)
      exact ⟨rfl, htail⟩

theorem separates_choice {allowed : List String} {s : String}
    (hallowed : (FieldKind.oneOf allowed).Legible = true) (hs : s ∈ allowed) :
    (choice s).Separates (.oneOf allowed) := by
  rw [FieldKind.Legible, List.all_eq_true] at hallowed
  have hpart : ∀ s ∈ allowed, ∀ c ∈ s.toList, isNamePart c = true :=
    fun s hs => List.all_eq_true.mp (hallowed s hs)
  refine .of_display ?_ nofun
  intro w rest rest' hw hrest hrest' heq
  cases hw with
  | @choice _ t ht =>
      rw [display, display] at heq
      obtain ⟨hchars, htail⟩ :=
        append_inj_of_ends (by decide) (hpart s hs) (hpart t ht) hrest hrest' heq
      exact ⟨congrArg choice (String.toList_inj.mp hchars), htail⟩

theorem separates_text (s : String) : (text s).Separates .text := by
  refine .of_display ?_ nofun
  intro w rest rest' hw _ _ heq
  cases hw with
  | text t =>
      obtain ⟨rfl, htail⟩ := Text.display_append_inj heq
      exact ⟨rfl, htail⟩

theorem separates_identifier {s : String} : (text s).Separates .identifier := by
  refine .of_display ?_ nofun
  intro w rest rest' hw _ _ heq
  cases hw with
  | identifier =>
      obtain ⟨rfl, htail⟩ := Text.display_append_inj heq
      exact ⟨rfl, htail⟩

theorem separates_shape {specs : List FieldSpec} {fields : List (String × FieldValue)}
    (hspecs : FieldKind.AllLegible specs = true) (hfields : FieldsConform specs fields)
    (h : ∀ spec ∈ specs, ∀ f ∈ fields, f.1 = spec.1 → f.2.Separates spec.2) :
    (shape fields).Separates (.shape specs) := by
  refine .of_display ?_ nofun
  intro w rest rest' hw hrest hrest' heq
  cases hw with
  | @shape _ fields' hfields' =>
      rw [display, display, namedTexts_eq_map, namedTexts_eq_map] at heq
      simp only [String.toList_append, toList_intercalate, List.append_assoc] at heq
      obtain ⟨rfl, htail⟩ := named_append_inj hspecs (by decide) hfields hfields' h
        (List.append_cancel_left heq)
      exact ⟨rfl, htail⟩

theorem Separates.optional {kind : FieldKind} {v : FieldValue} (h : v.Separates kind) :
    v.Separates (.optional kind) := by
  refine ⟨?_, h.items⟩
  intro w rest rest' hw hrest hrest' heq
  cases hw with
  | optional hw => exact h.display w rest rest' hw hrest hrest' heq

end FieldValue

mutual

/-- **The formula of a conformant expression shows where it ends**, and determines the
expression. -/
theorem Expression.Conformant.separable {e : Expression} :
    e.Conformant → Separable Expression.text Expression.Conformant e
  | .number n => separable_number n
  | .call hcontract hfields =>
      separable_call hcontract hfields (hfields.separates (Catalog.allLegible_fields hcontract))
  | .conditional hcondition hthen helse =>
      separable_conditional (.conditional hcondition hthen helse) hcondition.separable
        (fun e he => (hthen e he).separable) fun es hes e he => (helse es hes e he).separable

theorem FieldValue.Conforms.separates {kind : FieldKind} {v : FieldValue}
    (hkind : kind.Legible = true) : v.Conforms kind → v.Separates kind
  | .expression h => FieldValue.separates_expression h.separable
  | .sequence _ hitems => FieldValue.separates_sequence hitems fun e he => (hitems e he).separable
  | .choice h => FieldValue.separates_choice hkind h
  | .text s => FieldValue.separates_text s
  | .identifier _ => FieldValue.separates_identifier
  | .shape h => by
      rw [FieldKind.Legible] at hkind
      exact FieldValue.separates_shape hkind h (h.separates hkind)
  | .optional h => (h.separates (by rwa [FieldKind.Legible] at hkind)).optional

theorem FieldsConform.separates {specs : List FieldSpec} {fields : List (String × FieldValue)}
    (hspecs : FieldKind.AllLegible specs = true) : FieldsConform specs fields →
      ∀ spec ∈ specs, ∀ f ∈ fields, f.1 = spec.1 → f.2.Separates spec.2
  | .intro _ _ _ hvalues => fun spec hspec f hf heq =>
      (hvalues spec hspec f hf heq).separates (FieldKind.legible_of_mem hspecs hspec).2

end

/-! ### The main result -/

theorem Expression.Conformant.text_inj {e e' : Expression} (h : e.Conformant)
    (h' : e'.Conformant) : e.text = e'.text ↔ e = e' :=
  ⟨fun heq => (h.separable e' [] [] h' .nil .nil (by rw [heq])).1, fun heq => by rw [heq]⟩

/-- **Formulas identify expressions.**  Of conformant expressions, and of conformant
conditionals, no two different ones have the same formula. -/
theorem Expression.text_identifies :
    (∀ e e' : Expression, e.Conformant → e'.Conformant → (e.text = e'.text ↔ e = e'))
    ∧ ∀ c c' : Conditional, c.toExpression.Conformant → c'.toExpression.Conformant →
      (c.text = c'.text ↔ c = c') := by
  refine ⟨fun _ _ h h' => h.text_inj h', fun c c' h h' => ?_⟩
  have hexpression : c.text = c'.text ↔ c.toExpression = c'.toExpression := h.text_inj h'
  rw [hexpression]
  exact ⟨Conditional.toExpression_injective, congrArg _⟩

/-- Two conditionals with a conditional as their condition: the second branch belongs to the
inner one or to the outer one. -/
def Conditional.innerBranch : Conditional :=
  ⟨.conditional (.number (.integer 1)) [] (some []), [], none⟩

def Conditional.outerBranch : Conditional :=
  ⟨.conditional (.number (.integer 1)) [] none, [], some []⟩

/-- A negative number, and the operator that looks like its sign. -/
theorem Expression.text_identifies_lookalike :
    let negative := Expression.number (.integer (-1))
    let operator := Expression.call "-" [("args", .sequence [.number (.integer 1)])]
    negative.Conformant ∧ operator.Conformant ∧ negative.text ≠ operator.text
      ∧ Conditional.innerBranch.toExpression.Conformant
      ∧ Conditional.outerBranch.toExpression.Conformant
      ∧ Conditional.innerBranch.text ≠ Conditional.outerBranch.text := by
  intro negative operator
  have hnegative : negative.Conformant := .number _
  have hoperator : operator.Conformant :=
    .call (List.mem_of_getElem? (i := 8) rfl) (.take List.not_mem_nil
      (.sequence nofun (List.forall_mem_singleton.mpr (.number _))) .nil)
  have hempty : ∀ {branch : Option (List Expression)}, branch = none ∨ branch = some [] →
      ∀ es, branch = some es → ∀ e ∈ es, e.Conformant := by
    rintro _ (rfl | rfl) es hes
    · cases hes
    · cases hes
      exact List.forall_mem_nil _
  have hone : ∀ {branch : Option (List Expression)}, branch = none ∨ branch = some [] →
      (conditional (.number (.integer 1)) [] branch).Conformant :=
    fun hbranch => .conditional (.number _) (List.forall_mem_nil _) (hempty hbranch)
  have hinner : Conditional.innerBranch.toExpression.Conformant :=
    .conditional (hone (.inr rfl)) (List.forall_mem_nil _) (hempty (.inl rfl))
  have houter : Conditional.outerBranch.toExpression.Conformant :=
    .conditional (hone (.inl rfl)) (List.forall_mem_nil _) (hempty (.inr rfl))
  obtain ⟨hexpressions, hconditionals⟩ := text_identifies
  refine ⟨hnegative, hoperator, ?_, hinner, houter, ?_⟩
  · rw [Ne, hexpressions _ _ hnegative hoperator]
    exact Expression.noConfusion
  · rw [Ne, hconditionals _ _ hinner houter]
    simp [Conditional.innerBranch, Conditional.outerBranch]

/-- The two texts differ only in where the second branch stands. -/
example : Conditional.innerBranch.text = "IF IF 1 THEN [] ELSE [] THEN []"
    ∧ Conditional.outerBranch.text = "IF IF 1 THEN [] THEN [] ELSE []" := by decide +kernel

end StrategyDoc
