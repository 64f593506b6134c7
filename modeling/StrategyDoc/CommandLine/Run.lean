import StrategyDoc.Batch
import StrategyDoc.Catalog.Listing
import StrategyDoc.CommandLine.Arguments

/-! # Running a command

A command reads from a disk and comes to an exit status and two texts: its output, and its
notices. -/

namespace StrategyDoc.CommandLine

/-- What a command comes to. -/
structure Transcript where
  status : Nat
  output : String
  notices : String
deriving DecidableEq, Repr

/-- The notice of a failure. -/
def failureNotice (failure : Failure) : String := s!"error: {failure.message}\n"

/-- The end of a command by a failure, after some notices. -/
def Transcript.ofFailure (notices : String) (failure : Failure) : Transcript :=
  ⟨failure.exitStatus, "", notices ++ failureNotice failure⟩

/-- The settings in a file. -/
def loadSettings (disk : Disk) (file : String) : Except Failure Settings :=
  match (disk.readText file).mapError (·.message) >>= Ini.read? with
  | .ok ini => .ok ini.toSettings
  | .error reason => .error (.unreadableSettings file s!"couldn't read {file}: {reason}")

/-- The policy in force for a file of settings, if one is named, and overrides. -/
def loadPolicy (disk : Disk) (config : Option String) (overrides : Policy.Overrides) :
    Except Failure Policy :=
  match config with
  | none => Policy.resolve none overrides
  | some file => loadSettings disk file >>= fun s => Policy.resolve (some s) overrides

/-- The notice that settings are loaded. -/
def opening : (config : Option String) → String
  | none => ""
  | some file => s!"Loading config from {file}" ++ "\n"

/-- The notice of a failure in a batch. -/
def sourceNotice (source : String) (failure : Failure) : String :=
  s!"error: {source}: {failure.message}"

/-- The counts of a batch. -/
def counts (batch : Batch) : String :=
  s!"{batch.validCount} valid, {batch.invalidCount} invalid, {batch.failures.length} unreadable"

/-- The notices of a batch: one for each failure, then the counts. -/
def batchNotices (batch : Batch) : String :=
  String.join (batch.failures.map fun (source, failure) => sourceNotice source failure ++ "\n")
    ++ "\n" ++ counts batch ++ "\n"

/-- Check documents. -/
def validate (disk : Disk) (options : Options) : Transcript :=
  match loadPolicy disk options.config options.overrides with
  | .error failure => .ofFailure (opening options.config) failure
  | .ok policy =>
    let batch := Batch.ofLocations disk.documents policy options.paths
    ⟨batch.exitStatus, Report.renderAll options.format batch.outcomes,
      opening options.config ++ batchNotices batch⟩

/-- List the catalog, or describe one function. -/
def functions : Option String → Transcript
  | none => ⟨0, Catalog.listing, ""⟩
  | some name =>
    match Catalog.describe name with
    | .ok text => ⟨0, text, ""⟩
    | .error failure => .ofFailure "" failure

/-- Run a command. -/
def run (disk : Disk) : Command → Transcript
  | .validate options => validate disk options
  | .functions name => functions name

end StrategyDoc.CommandLine
