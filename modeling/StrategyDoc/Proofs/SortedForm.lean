import StrategyDoc.Json.Sorted

/-! # Members of a sorted value

Sorting changes the order of members and nothing else: as long as the names are different,
the same members are found (`member?_sort`).  Sorted members are determined by what is found
under each name (`eq_of_member?_eq`), so entries in another order are sorted to the same
members (`ofEntries_eq_of_perm`). -/

namespace StrategyDoc.Json

theorem Sorted.pairwise {members : List (String × Json)} (h : (object members).Sorted) :
    members.Pairwise fun a b => a.1 < b.1 := by
  unfold Sorted at h
  exact h.1

theorem Sorted.items {items : List Json} (h : (array items).Sorted) : SortedItems items := by
  unfold Sorted at h
  exact h

theorem member?_sortMembers (name : String) (members : List (String × Json)) :
    member? name (sortMembers members) = (member? name members).map sort := by
  induction members with
  | nil => rfl
  | cons m rest ih =>
      obtain ⟨key, value⟩ := m
      rw [sortMembers, member?_cons, member?_cons, ih]
      by_cases hkey : key = name
      · rw [if_pos hkey, if_pos hkey]
        rfl
      · rw [if_neg hkey, if_neg hkey]

theorem map_fst_sortMembers (members : List (String × Json)) :
    (sortMembers members).map (·.1) = members.map (·.1) := by
  induction members with
  | nil => rfl
  | cons m rest ih => rw [sortMembers, List.map_cons, List.map_cons, ih]

theorem member?_ofEntries {entries : List (String × Json)} (h : (entries.map (·.1)).Nodup)
    (name : String) : member? name (ofEntries entries) = member? name entries := by
  suffices hfold : ∀ members, member? name
      (entries.foldl (fun members entry => insert entry.1 entry.2 members) members)
        = (member? name entries).or (member? name members) by
    rw [ofEntries, hfold, member?_nil, Option.or_none]
  induction entries with
  | nil => exact fun _ => rfl
  | cons entry rest ih =>
      intro members
      obtain ⟨key, value⟩ := entry
      obtain ⟨hkey, hrest⟩ := List.nodup_cons.mp h
      rw [List.foldl_cons, ih hrest, member?_insert, member?_cons]
      by_cases heq : key = name
      · rw [if_pos heq, if_pos heq, member?_eq_none_iff.mpr (heq ▸ hkey)]
        rfl
      · rw [if_neg heq, if_neg heq]

theorem member?_sort {members : List (String × Json)} (h : (members.map (·.1)).Nodup)
    (name : String) :
    member? name (ofEntries (sortMembers members)) = (member? name members).map sort := by
  rw [member?_ofEntries (by rwa [map_fst_sortMembers]), member?_sortMembers]

theorem mem_map_fst_of_mem_sort {members : List (String × Json)} {m : String × Json}
    (h : m ∈ ofEntries (sortMembers members)) : m.1 ∈ members.map (·.1) := by
  rw [← map_fst_sortMembers]
  exact List.mem_map_of_mem (mem_of_mem_ofEntries h)

theorem member?_eq_none_of_lt {name : String} {members : List (String × Json)}
    (h : ∀ m ∈ members, name < m.1) : member? name members = none := by
  rw [member?_eq_none_iff, List.mem_map]
  rintro ⟨m, hm, rfl⟩
  exact String.lt_irrefl _ (h m hm)

/-- Sorted members under which the same values are found are the same. -/
theorem eq_of_member?_eq : ∀ {members others : List (String × Json)},
    members.Pairwise (fun a b => a.1 < b.1) → others.Pairwise (fun a b => a.1 < b.1) →
    (∀ name, member? name members = member? name others) → members = others
  | [], [], _, _, _ => rfl
  | [], (key, value) :: _, _, _, h => by
      have hkey := h key
      rw [member?_cons, if_pos rfl] at hkey
      cases hkey
  | (key, value) :: _, [], _, _, h => by
      have hkey := h key
      rw [member?_cons, if_pos rfl] at hkey
      cases hkey
  | (key, value) :: members, (key', value') :: others, hm, ho, h => by
      obtain ⟨hkey, hmembers⟩ := List.pairwise_cons.mp hm
      obtain ⟨hkey', hothers⟩ := List.pairwise_cons.mp ho
      -- The lesser of two different first names would be found on one side only.
      have hsame : key = key' := by
        have hfound := h key
        have hfound' := h key'
        rw [member?_cons, member?_cons, if_pos rfl] at hfound
        rw [member?_cons, member?_cons, if_pos rfl] at hfound'
        apply Classical.byContradiction
        intro hne
        rw [if_neg (Ne.symm hne)] at hfound
        rw [if_neg hne] at hfound'
        have hlt := hkey' _ (mem_of_member? hfound.symm)
        have hlt' := hkey _ (mem_of_member? hfound')
        exact String.lt_irrefl _ (String.lt_trans hlt hlt')
      subst hsame
      have hvalue := h key
      rw [member?_cons, member?_cons, if_pos rfl, if_pos rfl] at hvalue
      cases hvalue
      rw [eq_of_member?_eq hmembers hothers]
      intro name
      by_cases hname : key = name
      · subst hname
        rw [member?_eq_none_of_lt hkey, member?_eq_none_of_lt hkey']
      · have hrest := h name
        rwa [member?_cons, member?_cons, if_neg hname, if_neg hname] at hrest

/-! ### Entries in any order -/

theorem member?_eq_some_iff {entries : List (String × Json)} (h : (entries.map (·.1)).Nodup)
    {name : String} {value : Json} :
    member? name entries = some value ↔ (name, value) ∈ entries := by
  refine ⟨mem_of_member?, fun hmem => ?_⟩
  induction entries with
  | nil => cases hmem
  | cons entry rest ih =>
      obtain ⟨key, other⟩ := entry
      obtain ⟨hkey, hrest⟩ := List.nodup_cons.mp h
      rw [member?_cons]
      rcases List.mem_cons.mp hmem with heq | hmem
      · cases heq
        exact if_pos rfl
      · have hname : name ∈ rest.map (·.1) := List.mem_map_of_mem hmem
        have hne : key ≠ name := by
          rintro rfl
          exact hkey hname
        rw [if_neg hne]
        exact ih hrest hmem

/-- Entries are sorted to the members that have them in order. -/
theorem ofEntries_eq_of_perm {entries members : List (String × Json)}
    (hperm : entries.Perm members) (h : (members.map (·.1)).Pairwise (· < ·)) :
    ofEntries entries = members := by
  have hmembers : (members.map (·.1)).Nodup := by
    apply h.imp
    rintro name _ hlt rfl
    exact String.lt_irrefl name hlt
  have hentries : (entries.map (·.1)).Nodup := (hperm.map _).nodup_iff.mpr hmembers
  refine eq_of_member?_eq (pairwise_ofEntries entries) (List.pairwise_map.mp h) fun name => ?_
  rw [member?_ofEntries hentries]
  apply Option.ext
  intro value
  rw [member?_eq_some_iff hentries, member?_eq_some_iff hmembers]
  exact hperm.mem_iff

end StrategyDoc.Json
