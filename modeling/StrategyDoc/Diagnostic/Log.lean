import StrategyDoc.Diagnostic.Basic

/-! # A log of diagnostics

Diagnostics are collected in order.  A mark remembers how many there were, so that one can
ask later whether any has come since.  When the log is concluded, a value counts only if it
is there and nothing was logged. -/

namespace StrategyDoc

/-- The diagnostics collected so far. -/
structure Diagnostic.Log where
  entries : List Diagnostic
deriving DecidableEq, Repr

namespace Diagnostic.Log

def empty : Log := ⟨[]⟩

instance : EmptyCollection Log := ⟨empty⟩

/-- Add a diagnostic at the end. -/
def push (log : Log) (d : Diagnostic) : Log := ⟨log.entries ++ [d]⟩

def size (log : Log) : Nat := log.entries.length

def isEmpty (log : Log) : Bool := log.entries.isEmpty

/-- A mark for `grownSince`. -/
def mark (log : Log) : Nat := log.size

/-- Something was logged after the mark was taken. -/
def grownSince (log : Log) (mark : Nat) : Bool := decide (mark < log.size)

/-- The value, if there is one and nothing was logged; otherwise the diagnostics. -/
def conclude {α : Type} (log : Log) (value : Option α) : Except (List Diagnostic) α :=
  match value, log.entries with
  | some a, [] => .ok a
  | _, entries => .error entries

@[simp] theorem entries_push (log : Log) (d : Diagnostic) :
    (log.push d).entries = log.entries ++ [d] := rfl

@[simp] theorem size_push (log : Log) (d : Diagnostic) : (log.push d).size = log.size + 1 := by
  simp [size, push]

theorem conclude_eq_ok_iff {α : Type} (log : Log) (value : Option α) (a : α) :
    log.conclude value = .ok a ↔ value = some a ∧ log.entries = [] := by
  unfold conclude
  split
  · rename_i b h
    simp [h]
  · rename_i v entries h
    constructor
    · intro h'
      cases h'
    · rintro ⟨rfl, h'⟩
      exact absurd h' (h a rfl)

end Diagnostic.Log

end StrategyDoc
