import Mathlib.Data.Set.Basic
import Mathlib.Order.Bounds.Defs
import Mathlib.Order.Lattice
import StrategyDoc.Batch

/-! # Accounting for a batch

Checking some locations leaves a journal: one entry for each location that could not be
explored, and one entry for each document that was discovered, in the order of the
discoveries.  A batch is the journal sorted into its two kinds of entries, so nothing is
lost, added or filed twice.  The status of a batch is given by its upper bounds
(`exitStatus_le_iff`), from which follow its value on a joined batch, its independence of
the order, and the one case in which it is zero. -/

namespace StrategyDoc.Batch

/-! ### The journal -/

/-- One entry of a journal: a verdict or a failure, under the location it is about. -/
abbrev JournalEntry := (String × Verdict) ⊕ (String × Failure)

section

variable (source : DocumentSource) (policy : Policy)

/-- The entry of a document: the verdict on it alone, or why it could not be read. -/
def documentEntry (location : String) : JournalEntry :=
  match source.load location with
  | .ok document => .inl (location, .ofDocument policy document)
  | .error failure => .inr (location, failure)

/-- The entries of a location: those of the documents discovered there, or the one that
says why there are none. -/
def locationEntries (location : String) : List JournalEntry :=
  match source.discover location with
  | .ok found => found.map (documentEntry source policy)
  | .error failure => [.inr (location, failure)]

/-- The entries of some locations. -/
def journal (locations : List String) : List JournalEntry :=
  locations.flatMap (locationEntries source policy)

end

/-- The batch with some entries. -/
def ofEntries (entries : List JournalEntry) : Batch :=
  ⟨entries.filterMap Sum.getLeft?, entries.filterMap Sum.getRight?⟩

theorem ofEntries_append (first second : List JournalEntry) :
    ofEntries (first ++ second) = ofEntries first ++ ofEntries second := by
  show ofEntries _ = append _ _
  simp only [ofEntries, append, List.filterMap_append]

theorem join_ofEntries {α : Type} (entries : α → List JournalEntry) (xs : List α) :
    join (xs.map fun x => ofEntries (entries x)) = ofEntries (xs.flatMap entries) := by
  induction xs with
  | nil => rfl
  | cons x rest ih =>
    rw [List.flatMap_cons, ofEntries_append, ← ih]
    rfl

section

variable (source : DocumentSource) (policy : Policy)

theorem ofDocument_eq_ofEntries (location : String) :
    ofDocument source policy location = ofEntries [documentEntry source policy location] := by
  unfold ofDocument documentEntry
  cases source.load location <;> rfl

theorem ofLocation_eq_ofEntries (location : String) :
    ofLocation source policy location = ofEntries (locationEntries source policy location) := by
  unfold ofLocation locationEntries
  cases source.discover location with
  | error failure => rfl
  | ok found =>
    show join (found.map fun path => ofDocument source policy path) = _
    simp only [ofDocument_eq_ofEntries]
    rw [join_ofEntries, ← List.map_eq_flatMap]

/-- A batch is its journal, sorted. -/
theorem ofLocations_eq_ofEntries (locations : List String) :
    ofLocations source policy locations = ofEntries (journal source policy locations) := by
  unfold ofLocations journal
  rw [← join_ofEntries]
  exact congrArg join (List.map_congr_left fun path _ => ofLocation_eq_ofEntries source policy path)

end

/-- The entry is a verdict, and finds the document valid. -/
def IsClean : JournalEntry → Prop
  | .inl outcome => outcome.2.isValid = true
  | .inr _ => False

theorem isClean_ofEntries_iff (entries : List JournalEntry) :
    ((ofEntries entries).failures = [] ∧
        ∀ o ∈ (ofEntries entries).outcomes, o.2.isValid = true) ↔
      ∀ e ∈ entries, IsClean e := by
  induction entries with
  | nil => simp [ofEntries]
  | cons e rest ih =>
    rw [List.forall_mem_cons, ← ih]
    cases e with
    | inl outcome => simp [ofEntries, IsClean, and_left_comm]
    | inr failed => simp [ofEntries, IsClean]

/-! ### The status -/

theorem foldr_max_le_iff (xs : List Nat) (n : Nat) : xs.foldr max 0 ≤ n ↔ ∀ x ∈ xs, x ≤ n := by
  induction xs with
  | nil => simp
  | cons x rest ih => simp only [List.foldr_cons, Nat.max_le, ih, List.forall_mem_cons]

/-- Some document was rejected. -/
def HasRejected (batch : Batch) : Prop := ∃ o ∈ batch.outcomes, o.2.isValid = false

theorem invalidCount_eq_countP (batch : Batch) :
    batch.invalidCount = batch.outcomes.countP fun o => decide ¬o.2.isValid = true := by
  have split := List.length_eq_countP_add_countP (fun o : String × Verdict => o.2.isValid)
    (l := batch.outcomes)
  unfold invalidCount validCount
  omega

theorem invalidCount_pos_iff (batch : Batch) : 0 < batch.invalidCount ↔ batch.HasRejected := by
  rw [invalidCount_eq_countP, List.countP_pos_iff]
  simp [HasRejected]

/-- The statuses that a batch gives reason for. -/
def Reasons (batch : Batch) : Set Nat :=
  {status | (∃ f ∈ batch.failures, f.2.exitStatus = status) ∨ batch.HasRejected ∧ status = 4}

theorem exitStatus_le_iff (batch : Batch) (n : Nat) :
    batch.exitStatus ≤ n ↔ ∀ status ∈ batch.Reasons, status ≤ n := by
  have rejected : (if 0 < batch.invalidCount then 4 else 0) ≤ n ↔ (batch.HasRejected → 4 ≤ n) := by
    rw [← invalidCount_pos_iff]
    split <;> simp [*]
  show max _ (if 0 < batch.invalidCount then 4 else 0) ≤ n ↔ _
  rw [Nat.max_le, foldr_max_le_iff, rejected]
  constructor
  · rintro ⟨failed, rejected⟩ status (⟨f, hf, rfl⟩ | ⟨hr, rfl⟩)
    · exact failed _ (List.mem_map_of_mem hf)
    · exact rejected hr
  · intro bound
    refine ⟨?_, fun hr => bound 4 (.inr ⟨hr, rfl⟩)⟩
    intro status hs
    obtain ⟨f, hf, rfl⟩ := List.mem_map.1 hs
    exact bound _ (.inl ⟨f, hf, rfl⟩)

theorem reasons_append (a b : Batch) : (a ++ b).Reasons = a.Reasons ∪ b.Reasons := by
  ext status
  simp only [Reasons, HasRejected, failures_append, outcomes_append, List.mem_append,
    Set.mem_ofPred_eq, Set.mem_union, or_and_right, exists_or]
  exact or_or_or_comm

theorem exitStatus_append (a b : Batch) :
    (a ++ b).exitStatus = max a.exitStatus b.exitStatus := by
  refine eq_of_forall_ge_iff fun n => ?_
  rw [Nat.max_le, exitStatus_le_iff, exitStatus_le_iff, exitStatus_le_iff, reasons_append]
  simp only [Set.mem_union, or_imp, forall_and]

/-- The status of a batch depends on what is in it, not on where. -/
theorem exitStatus_perm {a b : Batch} (outcomes : a.outcomes.Perm b.outcomes)
    (failures : a.failures.Perm b.failures) : a.exitStatus = b.exitStatus := by
  refine eq_of_forall_ge_iff fun n => ?_
  rw [exitStatus_le_iff, exitStatus_le_iff]
  simp only [Reasons, HasRejected, outcomes.mem_iff, failures.mem_iff]

theorem exitStatus_eq_zero_iff (batch : Batch) :
    batch.exitStatus = 0 ↔ batch.failures = [] ∧ ∀ o ∈ batch.outcomes, o.2.isValid = true := by
  rw [← Nat.le_zero, exitStatus_le_iff]
  constructor
  · intro bound
    refine ⟨List.eq_nil_iff_forall_not_mem.2 fun f hf => ?_, fun o ho => ?_⟩
    · have := bound _ (.inl ⟨f, hf, rfl⟩)
      have := f.2.exitStatus_pos
      omega
    · by_contra invalid
      exact absurd (bound 4 (.inr ⟨⟨o, ho, by simpa using invalid⟩, rfl⟩)) (by decide)
  · rintro ⟨none, valid⟩ status (⟨f, hf, -⟩ | ⟨⟨o, ho, invalid⟩, -⟩)
    · simp [none] at hf
    · simp [valid o ho] at invalid

theorem exitStatus_ofLocations_eq_zero_iff (source : DocumentSource) (policy : Policy)
    (locations : List String) :
    (ofLocations source policy locations).exitStatus = 0 ↔
      ∀ location ∈ locations, ∃ found, source.discover location = .ok found ∧
        ∀ path ∈ found, ∃ document, source.load path = .ok document ∧
          ∃ strategy, Strategy.ofJson? policy document = .ok strategy := by
  have document (path : String) : IsClean (documentEntry source policy path) ↔
      ∃ document, source.load path = .ok document ∧
        ∃ strategy, Strategy.ofJson? policy document = .ok strategy := by
    unfold documentEntry
    cases source.load path with
    | error failure => exact ⟨nofun, nofun⟩
    | ok document => simp [IsClean, Verdict.isValid_ofDocument_iff]
  have location (location : String) : (∀ e ∈ locationEntries source policy location, IsClean e) ↔
      ∃ found, source.discover location = .ok found ∧
        ∀ path ∈ found, IsClean (documentEntry source policy path) := by
    unfold locationEntries
    cases source.discover location with
    | error failure => simp [IsClean]
    | ok found => simp
  rw [exitStatus_eq_zero_iff, ofLocations_eq_ofEntries, isClean_ofEntries_iff, journal]
  simp only [List.forall_mem_flatMap, location, document]

/-- A status other than zero is the largest that there is reason for. -/
theorem exitStatus_isGreatest {batch : Batch} (bad : batch.exitStatus ≠ 0) :
    IsGreatest batch.Reasons batch.exitStatus := by
  have upper := (exitStatus_le_iff batch batch.exitStatus).1 (Nat.le_refl _)
  refine ⟨?_, fun status hs => upper status hs⟩
  -- were the status not among the reasons, the number below it would bound them too
  by_contra absent
  have below : batch.exitStatus ≤ batch.exitStatus - 1 := by
    rw [exitStatus_le_iff]
    intro status hs
    have := upper status hs
    have : status ≠ batch.exitStatus := fun h => absent (h ▸ hs)
    omega
  omega

/-! ### Both together -/

/-- **Accounting.**  A batch holds each entry of its journal once, verdicts and failures
apart, in order.  The batch of joined locations is the joined batch, and its status the
higher one; the order of the locations has no influence on the status.  It is zero if
everything was read and found valid, and otherwise the largest of the failures' statuses
and of 4 for a rejected document. -/
theorem ofLocations_accounting (source : DocumentSource) (policy : Policy)
    (locations : List String) :
    (ofLocations source policy locations).outcomes
        = (journal source policy locations).filterMap Sum.getLeft? ∧
      (ofLocations source policy locations).failures
        = (journal source policy locations).filterMap Sum.getRight? ∧
      (∀ first second,
        (ofLocations source policy (first ++ second)).outcomes
            = (ofLocations source policy first).outcomes
              ++ (ofLocations source policy second).outcomes ∧
          (ofLocations source policy (first ++ second)).failures
            = (ofLocations source policy first).failures
              ++ (ofLocations source policy second).failures ∧
          (ofLocations source policy (first ++ second)).exitStatus
            = max (ofLocations source policy first).exitStatus
                (ofLocations source policy second).exitStatus) ∧
      (∀ others, others.Perm locations →
        (ofLocations source policy others).exitStatus
          = (ofLocations source policy locations).exitStatus) ∧
      ((ofLocations source policy locations).exitStatus = 0 ↔
        (ofLocations source policy locations).failures = [] ∧
          ∀ o ∈ (ofLocations source policy locations).outcomes, o.2.isValid = true) ∧
      ((ofLocations source policy locations).exitStatus ≠ 0 →
        IsGreatest (ofLocations source policy locations).Reasons
          (ofLocations source policy locations).exitStatus) := by
  refine ⟨?outcomes, ?failures, ?append, ?order, exitStatus_eq_zero_iff _, exitStatus_isGreatest⟩
  case outcomes => rw [ofLocations_eq_ofEntries, ofEntries]
  case failures => rw [ofLocations_eq_ofEntries, ofEntries]
  case append =>
    intro first second
    rw [ofLocations_append]
    exact ⟨outcomes_append _ _, failures_append _ _, exitStatus_append _ _⟩
  case order =>
    intro others reordered
    have entries : (journal source policy others).Perm (journal source policy locations) :=
      reordered.flatMap_right _
    rw [ofLocations_eq_ofEntries, ofLocations_eq_ofEntries]
    exact exitStatus_perm (entries.filterMap _) (entries.filterMap _)

/-- A place that cannot be explored, and a directory of two documents: one that is rejected
and one whose text is broken. -/
def twoDocuments : DocumentSource where
  discover location :=
    if location = "docs" then .ok ["docs/a.json", "docs/b.json"]
    else .error (.inputOutput "Permission denied (os error 13)")
  load location :=
    if location = "docs/a.json" then .ok .null
    else .error (.malformedDocument location "EOF while parsing a value at line 1 column 0")

/-- The rejected document decides over the broken one and over the missing place, whichever
is named first. -/
theorem ofLocations_twoDocuments :
    (ofLocations twoDocuments .default ["gone", "docs"]).exitStatus = 4 ∧
      (ofLocations twoDocuments .default ["docs", "gone"]).exitStatus = 4 ∧
      IsGreatest (ofLocations twoDocuments .default ["docs", "gone"]).Reasons 4 := by
  have accounting := ofLocations_accounting twoDocuments .default ["docs", "gone"]
  have status : (ofLocations twoDocuments .default ["docs", "gone"]).exitStatus = 4 := by decide
  obtain ⟨-, -, -, order, -, greatest⟩ := accounting
  refine ⟨?_, status, ?_⟩
  · rw [order ["gone", "docs"] (List.Perm.swap _ _ _), status]
  · rw [status] at greatest
    exact greatest (by decide)

end StrategyDoc.Batch
