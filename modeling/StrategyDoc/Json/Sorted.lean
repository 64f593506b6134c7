import StrategyDoc.Json.Members

/-! # Sorted values

Values that differ only in the order of members have one sorted form.  Reading yields
sorted values only; `sort` is the form in which a written value is read back. -/

namespace StrategyDoc.Json

mutual

/-- Every object in the value lists its members under strictly increasing names. -/
def Sorted : Json → Prop
  | .array items => SortedItems items
  | .object members =>
    members.Pairwise (fun a b => a.1 < b.1) ∧ SortedMembers members
  | _ => True

def SortedItems : List Json → Prop
  | [] => True
  | item :: rest => item.Sorted ∧ SortedItems rest

def SortedMembers : List (String × Json) → Prop
  | [] => True
  | (_, value) :: rest => value.Sorted ∧ SortedMembers rest

end

theorem sortedItems_iff {items : List Json} :
    SortedItems items ↔ ∀ item ∈ items, item.Sorted := by
  induction items with
  | nil => simp [SortedItems]
  | cons item rest ih => simp [SortedItems, ih]

theorem sortedMembers_iff {members : List (String × Json)} :
    SortedMembers members ↔ ∀ m ∈ members, m.2.Sorted := by
  induction members with
  | nil => simp [SortedMembers]
  | cons m rest ih => simp [SortedMembers, ih]

theorem Sorted.member? {members : List (String × Json)} {name : String} {value : Json}
    (h : (Json.object members).Sorted) (hm : Json.member? name members = some value) :
    value.Sorted := by
  unfold Sorted at h
  exact sortedMembers_iff.mp h.2 _ (mem_of_member? hm)

/-- The members of written entries are among the entries. -/
theorem mem_of_mem_ofEntries {m : String × Json} {entries : List (String × Json)}
    (h : m ∈ ofEntries entries) : m ∈ entries := by
  suffices hfold : ∀ (entries members : List (String × Json)),
      m ∈ entries.foldl (fun members entry => insert entry.1 entry.2 members) members →
      m ∈ entries ∨ m ∈ members by
    rcases hfold entries [] h with h | h
    · exact h
    · cases h
  intro entries
  induction entries with
  | nil => exact fun _ h => .inr h
  | cons entry rest ih =>
    intro members h
    rcases ih _ h with h | h
    · exact .inl (List.mem_cons_of_mem _ h)
    · rcases mem_insert h with h | h
      · exact .inl (List.mem_cons.mpr (.inl h))
      · exact .inr h

/-- An object whose entries have sorted values is sorted as it is read. -/
theorem sorted_object_ofEntries {entries : List (String × Json)}
    (h : ∀ m ∈ entries, m.2.Sorted) : (Json.object (ofEntries entries)).Sorted := by
  unfold Sorted
  refine ⟨pairwise_ofEntries entries, sortedMembers_iff.mpr ?_⟩
  intro m hm
  exact h m (mem_of_mem_ofEntries hm)

/-! ### Sorting -/

mutual

/-- The value with the members of every object sorted. -/
def sort : Json → Json
  | .array items => .array (sortItems items)
  | .object members => .object (ofEntries (sortMembers members))
  | value => value

def sortItems : List Json → List Json
  | [] => []
  | item :: rest => item.sort :: sortItems rest

def sortMembers : List (String × Json) → List (String × Json)
  | [] => []
  | (name, value) :: rest => (name, value.sort) :: sortMembers rest

end

mutual

theorem sorted_sort : ∀ value : Json, value.sort.Sorted
  | .null => trivial
  | .bool _ => trivial
  | .number _ => trivial
  | .string _ => trivial
  | .array items => sortedItems_iff.mpr (sorted_of_mem_sortItems items)
  | .object members => sorted_object_ofEntries (sorted_of_mem_sortMembers members)

theorem sorted_of_mem_sortItems : ∀ items : List Json, ∀ item ∈ sortItems items, item.Sorted
  | [], _, h => by cases h
  | first :: rest, item, h => by
    rcases List.mem_cons.mp h with rfl | h
    · exact sorted_sort first
    · exact sorted_of_mem_sortItems rest item h

theorem sorted_of_mem_sortMembers :
    ∀ members : List (String × Json), ∀ m ∈ sortMembers members, m.2.Sorted
  | [], _, h => by cases h
  | (_, value) :: rest, m, h => by
    rcases List.mem_cons.mp h with rfl | h
    · exact sorted_sort value
    · exact sorted_of_mem_sortMembers rest m h

end

end StrategyDoc.Json
