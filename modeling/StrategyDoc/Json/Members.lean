import StrategyDoc.Json.Basic

/-! # Members of an object

Members are looked up by name.  Reading a text yields members sorted under strictly
increasing names (`pairwise_ofEntries`), while a value written by this library keeps its
members in the order of writing. -/

namespace StrategyDoc.Json

/-! ### Looking up -/

/-- The value under a name, the first if the name is repeated. -/
def member? (name : String) : List (String × Json) → Option Json
  | [] => none
  | (key, value) :: rest => if key = name then some value else member? name rest

@[simp] theorem member?_nil (name : String) : member? name [] = none := rfl

theorem member?_cons (name key : String) (value : Json) (rest : List (String × Json)) :
    member? name ((key, value) :: rest) = if key = name then some value else member? name rest :=
  rfl

theorem mem_of_member? {name : String} {value : Json} {members : List (String × Json)}
    (h : member? name members = some value) : (name, value) ∈ members := by
  induction members with
  | nil => cases h
  | cons m rest ih =>
    obtain ⟨key, other⟩ := m
    rw [member?_cons] at h
    by_cases hk : key = name
    · rw [if_pos hk] at h
      cases h
      rw [hk]
      exact List.mem_cons_self
    · rw [if_neg hk] at h
      exact List.mem_cons_of_mem _ (ih h)

theorem member?_eq_none_iff {name : String} {members : List (String × Json)} :
    member? name members = none ↔ name ∉ members.map (·.1) := by
  induction members with
  | nil => simp [member?]
  | cons m rest ih =>
    obtain ⟨key, other⟩ := m
    rw [member?_cons]
    by_cases hk : key = name
    · simp [hk]
    · rw [if_neg hk, ih]
      simp [Ne.symm hk]

/-! ### Inserting -/

/-- Put a member into a sorted list of members, replacing the value under its name. -/
def insert (name : String) (value : Json) : List (String × Json) → List (String × Json)
  | [] => [(name, value)]
  | (key, other) :: rest =>
    if name < key then (name, value) :: (key, other) :: rest
    else if name = key then (name, value) :: rest
    else (key, other) :: insert name value rest

/-- Putting a member in changes what is found under its own name only. -/
theorem member?_insert (name key : String) (value : Json) (members : List (String × Json)) :
    member? key (insert name value members)
      = if name = key then some value else member? key members := by
  induction members with
  | nil => rfl
  | cons m rest ih =>
    obtain ⟨first, other⟩ := m
    unfold insert
    by_cases hlt : name < first
    · rw [if_pos hlt]
      rfl
    · rw [if_neg hlt]
      by_cases heq : name = first
      · rw [if_pos heq, member?_cons, member?_cons]
        by_cases hk : name = key
        · rw [if_pos hk, if_pos hk]
        · rw [if_neg hk, if_neg hk, if_neg (heq ▸ hk)]
      · rw [if_neg heq, member?_cons, member?_cons, ih]
        by_cases hf : first = key
        · rw [if_pos hf, if_pos hf, if_neg (hf ▸ heq)]
        · rw [if_neg hf, if_neg hf]

theorem mem_insert {m : String × Json} {name : String} {value : Json}
    {members : List (String × Json)} (h : m ∈ insert name value members) :
    m = (name, value) ∨ m ∈ members := by
  induction members with
  | nil => exact .inl (List.mem_singleton.mp h)
  | cons first rest ih =>
    unfold insert at h
    split at h
    · exact List.mem_cons.mp h
    · split at h
      · exact (List.mem_cons.mp h).imp_right (List.mem_cons_of_mem _)
      · rcases List.mem_cons.mp h with rfl | h
        · exact .inr List.mem_cons_self
        · exact (ih h).imp_right (List.mem_cons_of_mem _)

/-- Putting a member into sorted members leaves them sorted. -/
theorem pairwise_insert (name : String) (value : Json) {members : List (String × Json)}
    (h : members.Pairwise fun a b => a.1 < b.1) :
    (insert name value members).Pairwise fun a b => a.1 < b.1 := by
  induction members with
  | nil => exact List.pairwise_singleton _ _
  | cons first rest ih =>
    obtain ⟨key, other⟩ := first
    obtain ⟨hfirst, hrest⟩ := List.pairwise_cons.mp h
    unfold insert
    by_cases hlt : name < key
    · rw [if_pos hlt]
      refine List.pairwise_cons.mpr ⟨?_, h⟩
      intro m hm
      rcases List.mem_cons.mp hm with rfl | hm
      · exact hlt
      · exact String.lt_trans hlt (hfirst m hm)
    · rw [if_neg hlt]
      by_cases heq : name = key
      · rw [if_pos heq, heq]
        exact List.pairwise_cons.mpr ⟨hfirst, hrest⟩
      · rw [if_neg heq]
        refine List.pairwise_cons.mpr ⟨?_, ih hrest⟩
        intro m hm
        rcases mem_insert hm with rfl | hm
        · exact String.not_le.mp fun hle => heq (String.le_antisymm (hle) (String.not_lt.mp hlt))
        · exact hfirst m hm

/-! ### Entries as written -/

/-- The sorted members of an object whose entries were written in the given order: of two
entries with one name the later one counts. -/
def ofEntries (entries : List (String × Json)) : List (String × Json) :=
  entries.foldl (fun members entry => insert entry.1 entry.2 members) []

theorem pairwise_ofEntries (entries : List (String × Json)) :
    (ofEntries entries).Pairwise fun a b => a.1 < b.1 := by
  suffices h : ∀ (entries members : List (String × Json)),
      members.Pairwise (fun a b => a.1 < b.1) →
      (entries.foldl (fun members entry => insert entry.1 entry.2 members) members).Pairwise
        fun a b => a.1 < b.1 from h entries [] List.Pairwise.nil
  intro entries
  induction entries with
  | nil => exact fun _ h => h
  | cons entry rest ih => exact fun members h => ih _ (pairwise_insert _ _ h)

end StrategyDoc.Json
