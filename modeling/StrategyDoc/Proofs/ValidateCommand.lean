import StrategyDoc.CommandLine.Run
import StrategyDoc.Files.Tree
import StrategyDoc.Proofs.Accounting
import StrategyDoc.Proofs.Presentation

/-! # The command `validate`

The settings that are named, if any, and the options decide on a policy, or on none
(`Options.Resolves`).  Without a policy the command ends with status 2 and no output, whatever
documents there are (`Refuses`).  With one, it prints the reports on the documents that were
read, and its notices are one message for each failure and the counts, each from the start of a
line.  The status is zero exactly if every location was explored and every document found there
was read and accepted (`Checks`).  The options of presentation change neither the status nor the
notices.  All this is stated together in `run_validate`; the texts of the notices are spelled
out in `messages`. -/

namespace StrategyDoc

/-! ### Failures of the settings -/

/-- Every failure of a computation has the status. -/
def FailsWith {α : Type} (status : Nat) (x : Except Failure α) : Prop :=
  ∀ failure, x = .error failure → failure.exitStatus = status

theorem FailsWith.bind {α β : Type} {status : Nat} {x : Except Failure α}
    {f : α → Except Failure β} (h : FailsWith status x) (hf : ∀ a, FailsWith status (f a)) :
    FailsWith status (x >>= f) := by
  cases x with
  | error failure => exact fun _ hbind => h _ (by cases hbind; rfl)
  | ok a => exact hf a

namespace Policy

theorem failsWith_setting {α : Type} (key : String) (answer : Except String α) :
    FailsWith 2 (setting key answer) := by
  intro failure h
  cases answer with
  | ok x => nomatch h
  | error reason => cases h; rfl

theorem failsWith_ofSettings (settings : Settings) : FailsWith 2 (ofSettings settings) := by
  unfold ofSettings
  refine (failsWith_setting _ _).bind fun strict => ?_
  refine (failsWith_setting _ _).bind fun allowed => ?_
  exact (failsWith_setting _ _).bind fun limit => nofun

theorem failsWith_override (policy : Policy) (overrides : Overrides) :
    FailsWith 2 (policy.override overrides) := by
  intro failure h
  rw [override] at h
  split at h
  · cases h; rfl
  · nomatch h

theorem failsWith_resolve (settings : Option Settings) (overrides : Overrides) :
    FailsWith 2 (resolve settings overrides) := by
  cases settings with
  | none => exact failsWith_override _ _
  | some settings => exact (failsWith_ofSettings settings).bind fun _ => failsWith_override _ _

end Policy

/-! ### Documents on a disk -/

namespace Disk

variable (disk : Disk) (policy : Policy)

/-- The document at a location is read, parsed and accepted. -/
def AcceptsAt (location : String) : Prop :=
  ∃ text document strategy, disk.readText location = .ok text ∧
    Json.ofText location text = .ok document ∧ Strategy.ofJson? policy document = .ok strategy

/-- A location is explored, and all documents found there are accepted. -/
def AcceptsAll (location : String) : Prop :=
  ∃ found, disk.discover location = .ok found ∧ ∀ path ∈ found, disk.AcceptsAt policy path

/-- The verdicts on the documents that are read, in the order of the locations. -/
def verdicts (locations : List String) : List (String × Verdict) :=
  (Batch.journal disk.documents policy locations).filterMap Sum.getLeft?

/-- What keeps the other documents from being found or read, in the order of the locations. -/
def failures (locations : List String) : List (String × Failure) :=
  (Batch.journal disk.documents policy locations).filterMap Sum.getRight?

theorem ofLocations_documents (locations : List String) :
    Batch.ofLocations disk.documents policy locations
      = ⟨disk.verdicts policy locations, disk.failures policy locations⟩ :=
  Batch.ofLocations_eq_ofEntries disk.documents policy locations

theorem load_eq_ok_iff (location : String) (document : Json) :
    disk.load location = .ok document ↔
      ∃ text, disk.readText location = .ok text ∧ Json.ofText location text = .ok document := by
  unfold load
  cases disk.readText location with
  | ok text => simp
  | error fault => simp

theorem acceptsAt_iff (location : String) :
    disk.AcceptsAt policy location ↔ ∃ document, disk.documents.load location = .ok document ∧
      ∃ strategy, Strategy.ofJson? policy document = .ok strategy := by
  show _ ↔ ∃ document, disk.load location = .ok document ∧ _
  simp only [load_eq_ok_iff, AcceptsAt]
  constructor
  · rintro ⟨text, document, strategy, htext, hdocument, hstrategy⟩
    exact ⟨document, ⟨text, htext, hdocument⟩, strategy, hstrategy⟩
  · rintro ⟨document, ⟨text, htext, hdocument⟩, strategy, hstrategy⟩
    exact ⟨text, document, strategy, htext, hdocument, hstrategy⟩

theorem exitStatus_ofLocations_eq_zero_iff (locations : List String) :
    (Batch.ofLocations disk.documents policy locations).exitStatus = 0 ↔
      ∀ location ∈ locations, disk.AcceptsAll policy location := by
  rw [Batch.exitStatus_ofLocations_eq_zero_iff]
  simp only [AcceptsAll, acceptsAt_iff]
  rfl

end Disk

namespace CommandLine

/-! ### The policy -/

section

variable (disk : Disk) (config : Option String) (overrides : Policy.Overrides)

theorem failsWith_loadSettings (file : String) : FailsWith 2 (loadSettings disk file) := by
  intro failure h
  unfold loadSettings at h
  split at h
  · nomatch h
  · cases h; rfl

theorem failsWith_loadPolicy : FailsWith 2 (loadPolicy disk config overrides) := by
  cases config with
  | none => exact Policy.failsWith_resolve none overrides
  | some file =>
    exact (failsWith_loadSettings disk file).bind fun settings =>
      Policy.failsWith_resolve (some settings) overrides

/-- The policy depends on one file of the disk at most. -/
theorem loadPolicy_congr {disk other : Disk}
    (h : ∀ file ∈ config, other.readText file = disk.readText file) :
    loadPolicy other config overrides = loadPolicy disk config overrides := by
  cases config with
  | none => rfl
  | some file => simp only [loadPolicy, loadSettings, h file rfl]

end

/-- The policy that the options ask for, with the settings in a file if one is named. -/
inductive Options.Resolves (disk : Disk) (options : Options) : Policy → Prop
  | unnamed {policy : Policy} (hconfig : options.config = none)
      (hpolicy : Policy.resolve none
        ⟨options.strict, options.maxDepth, options.allowEmptyBranches⟩ = .ok policy) :
      Resolves disk options policy
  | named {file text : String} {ini : Ini} {policy : Policy} (hconfig : options.config = some file)
      (htext : disk.readText file = .ok text) (hini : Ini.read? text = .ok ini)
      (hpolicy : Policy.resolve (some ini.toSettings)
        ⟨options.strict, options.maxDepth, options.allowEmptyBranches⟩ = .ok policy) :
      Resolves disk options policy

theorem loadSettings_eq_ok_iff {disk : Disk} {file : String} {settings : Settings} :
    loadSettings disk file = .ok settings ↔
      ∃ text ini, disk.readText file = .ok text ∧ Ini.read? text = .ok ini
        ∧ ini.toSettings = settings := by
  unfold loadSettings
  cases disk.readText file with
  | error fault => simp [Except.mapError, bind, Except.bind]
  | ok text =>
    cases hini : Ini.read? text with
    | error reason => simp [Except.mapError, bind, Except.bind, hini]
    | ok ini => simp [Except.mapError, bind, Except.bind, hini]

theorem loadPolicy_eq_ok_iff {disk : Disk} {options : Options} {policy : Policy} :
    loadPolicy disk options.config options.overrides = .ok policy
      ↔ options.Resolves disk policy := by
  cases hconfig : options.config with
  | none =>
    refine ⟨.unnamed hconfig, fun h => ?_⟩
    cases h with
    | unnamed _ hpolicy => exact hpolicy
    | named hfile => rw [hconfig] at hfile; cases hfile
  | some file =>
    rw [loadPolicy, Json.bind_eq_ok_iff]
    constructor
    · rintro ⟨settings, hsettings, hpolicy⟩
      obtain ⟨text, ini, htext, hini, rfl⟩ := loadSettings_eq_ok_iff.mp hsettings
      exact .named hconfig htext hini hpolicy
    · intro h
      cases h with
      | unnamed hnone => rw [hconfig] at hnone; cases hnone
      | named hfile htext hini hpolicy =>
        cases hconfig.symm.trans hfile
        exact ⟨_, loadSettings_eq_ok_iff.mpr ⟨_, _, htext, hini, rfl⟩, hpolicy⟩

/-! ### The notices -/

/-- The lines of a text, the last of which is not ended. -/
def lines (text : String) : List (List Char) := text.toList.splitOn '\n'

/-- The message that settings are loaded from the file that is named. -/
def loading (config : Option String) : List String :=
  config.toList.map fun file => s!"Loading config from {file}"

/-- How many documents are valid, invalid and out of reach. -/
def tally (valid invalid unreadable : Nat) : String :=
  s!"{valid} valid, {invalid} invalid, {unreadable} unreadable"

/-- The messages of a run: the settings that are loaded, the failures in order, and how many
documents of each kind there are, below an empty line. -/
def messages (config : Option String) (verdicts : List (String × Verdict))
    (failures : List (String × Failure)) : List String :=
  loading config
    ++ failures.map (fun (source, failure) => s!"error: {source}: {failure.message}")
    ++ ["", tally (verdicts.countP (·.2 matches .valid _))
          (verdicts.countP (·.2 matches .invalid _)) failures.length]

theorem lines_join (texts : List String) :
    lines (String.join (texts.map (· ++ "\n"))) = texts.flatMap lines ++ [[]] := by
  induction texts with
  | nil => rfl
  | cons text rest ih =>
    have hcons : (String.join ((text :: rest).map (· ++ "\n"))).toList
        = text.toList ++ '\n' :: (String.join (rest.map (· ++ "\n"))).toList := by
      simp
    rw [lines, hcons, List.splitOn_append_cons_self, List.flatMap_cons, List.append_assoc, ← ih]
    rfl

theorem opening_eq_join (config : Option String) :
    opening config = String.join ((loading config).map (· ++ "\n")) := by
  cases config with
  | none => exact String.join_nil.symm
  | some file =>
    show s!"Loading config from {file}" ++ "\n"
      = String.join [s!"Loading config from {file}" ++ "\n"]
    rw [String.join_cons, String.join_nil, String.append_empty]

theorem opening_append_failureNotice (config : Option String) (failure : Failure) :
    opening config ++ failureNotice failure
      = String.join ((loading config ++ [s!"error: {failure.message}"]).map (· ++ "\n")) := by
  have hmessage : failureNotice failure = s!"error: {failure.message}" ++ "\n" := by
    rw [failureNotice]
    simp only [String.append_assoc]
    rfl
  rw [List.map_append, String.join_append, ← opening_eq_join, List.map_singleton,
    String.join_cons, String.join_nil, String.append_empty, hmessage]

/-- A verdict that is not valid is invalid. -/
theorem counts_eq_tally (verdicts : List (String × Verdict)) (failures : List (String × Failure)) :
    counts ⟨verdicts, failures⟩
      = tally (verdicts.countP (·.2 matches .valid _)) (verdicts.countP (·.2 matches .invalid _))
          failures.length := by
  have hvalid : (fun o : String × Verdict => o.2.isValid) = (·.2 matches .valid _) := by
    funext ⟨_, verdict⟩
    cases verdict <;> rfl
  have hinvalid : (fun o : String × Verdict => decide ¬ o.2.isValid = true)
      = (·.2 matches .invalid _) := by
    funext ⟨_, verdict⟩
    cases verdict <;> rfl
  rw [counts, tally, Batch.invalidCount_eq_countP, Batch.validCount, hvalid, hinvalid]

theorem opening_append_batchNotices (config : Option String) (verdicts : List (String × Verdict))
    (failures : List (String × Failure)) :
    opening config ++ batchNotices ⟨verdicts, failures⟩
      = String.join ((messages config verdicts failures).map (· ++ "\n")) := by
  have hfailures :
      failures.map (fun (source, failure) => sourceNotice source failure ++ "\n")
        = (failures.map fun (source, failure) => s!"error: {source}: {failure.message}").map
            (· ++ "\n") := by
    rw [List.map_map]
    rfl
  have hcounts : "\n" ++ (counts ⟨verdicts, failures⟩ ++ "\n")
      = String.join (["", counts ⟨verdicts, failures⟩].map (· ++ "\n")) := by
    simp
  rw [messages, List.map_append, List.map_append, String.join_append, String.join_append,
    ← opening_eq_join, ← counts_eq_tally, ← hcounts, ← hfailures, batchNotices]
  simp only [String.append_assoc]

/-! ### The command -/

theorem Options.format_eq (options : Options) :
    options.format
      = if options.output = some .json then .json options.pretty else .text options.tree := by
  unfold format
  split
  · next h => rw [if_pos h]
  · next h => rw [if_neg h]

/-- Without a policy, the command ends with status 2 and no output.  What it says does not depend
on the documents, nor on where they are looked for. -/
structure Refuses (disk : Disk) (options : Options) : Prop where
  status : (run disk (.validate options)).status = 2
  output : (run disk (.validate options)).output = ""
  notices : ∃ failure, loadPolicy disk options.config options.overrides = .error failure ∧
    lines (run disk (.validate options)).notices
      = (loading options.config ++ [s!"error: {failure.message}"]).flatMap lines ++ [[]]
  alone : ∀ (other : Disk) (paths : List String),
    (∀ file ∈ options.config, other.readText file = disk.readText file) →
    run other (.validate { options with paths := paths }) = run disk (.validate options)

/-- With a policy, the output is the reports and the notices are the messages.  The status is
zero if everything is accepted, and only then. -/
structure Checks (disk : Disk) (options : Options) (policy : Policy) : Prop where
  output : (run disk (.validate options)).output
    = Report.renderAll
        (if options.output = some .json then .json options.pretty else .text options.tree)
        (disk.verdicts policy options.paths)
  notices : lines (run disk (.validate options)).notices
    = (messages options.config (disk.verdicts policy options.paths)
        (disk.failures policy options.paths)).flatMap lines ++ [[]]
  status : (run disk (.validate options)).status = 0 ↔
    ∀ location ∈ options.paths, disk.AcceptsAll policy location

section

variable {disk : Disk} {options : Options}

theorem validate_of_error {failure : Failure}
    (h : loadPolicy disk options.config options.overrides = .error failure) :
    validate disk options = ⟨2, "", opening options.config ++ failureNotice failure⟩ := by
  rw [validate, h, ← failsWith_loadPolicy disk options.config options.overrides failure h]
  rfl

theorem refuses_of_error {failure : Failure}
    (h : loadPolicy disk options.config options.overrides = .error failure) :
    Refuses disk options where
  status := congrArg Transcript.status (validate_of_error h)
  output := congrArg Transcript.output (validate_of_error h)
  notices := by
    refine ⟨failure, h, ?_⟩
    rw [← lines_join, ← opening_append_failureNotice]
    exact congrArg (fun transcript => lines transcript.notices) (validate_of_error h)
  alone := by
    intro other paths hfile
    have hother : loadPolicy other options.config options.overrides = .error failure :=
      (loadPolicy_congr options.config options.overrides hfile).trans h
    show validate other { options with paths := paths } = validate disk options
    rw [validate_of_error h]
    exact validate_of_error hother

variable {policy : Policy} (h : loadPolicy disk options.config options.overrides = .ok policy)
include h

theorem validate_of_ok :
    validate disk options
      = ⟨(Batch.ofLocations disk.documents policy options.paths).exitStatus,
          Report.renderAll options.format (disk.verdicts policy options.paths),
          opening options.config
            ++ batchNotices ⟨disk.verdicts policy options.paths,
              disk.failures policy options.paths⟩⟩ := by
  rw [validate, h]
  simp only [disk.ofLocations_documents]

theorem checks_of_ok : Checks disk options policy where
  output := by
    rw [← options.format_eq]
    exact congrArg Transcript.output (validate_of_ok h)
  notices := by
    rw [← lines_join, ← opening_append_batchNotices]
    exact congrArg (fun transcript => lines transcript.notices) (validate_of_ok h)
  status := by
    have hstatus : (run disk (.validate options)).status
        = (Batch.ofLocations disk.documents policy options.paths).exitStatus :=
      congrArg Transcript.status (validate_of_ok h)
    rw [hstatus]
    exact disk.exitStatus_ofLocations_eq_zero_iff policy options.paths

end

/-- The looks of the output have no influence on the rest. -/
theorem validate_checking (disk : Disk) (options : Options) :
    (validate disk options.checking).status = (validate disk options).status ∧
      (validate disk options.checking).notices = (validate disk options).notices := by
  have hpolicy : loadPolicy disk options.checking.config options.checking.overrides
      = loadPolicy disk options.config options.overrides := rfl
  cases h : loadPolicy disk options.config options.overrides with
  | error failure =>
    rw [validate_of_error h, validate_of_error (hpolicy.trans h)]
    exact ⟨rfl, rfl⟩
  | ok policy =>
    rw [validate_of_ok h, validate_of_ok (hpolicy.trans h)]
    exact ⟨rfl, rfl⟩

/-- **What a command line of `validate` comes to.**  If the options and settings give a policy,
everything is checked under it and reported; if they give none, the run is refused before any
document is looked at.  Command lines that differ only in how the output is to look have the same
status and the same notices. -/
theorem run_validate (disk : Disk) {args : List String} {options : Options}
    (accepted : Command.ofArguments args = .ok (.validate options)) :
    (∀ policy, options.Resolves disk policy → Checks disk options policy) ∧
    ((∀ policy, ¬ options.Resolves disk policy) → Refuses disk options) ∧
    (∀ args' options', Command.ofArguments args' = .ok (.validate options') →
      withoutPresentation none args' = withoutPresentation none args →
      (run disk (.validate options')).status = (run disk (.validate options)).status ∧
        (run disk (.validate options')).notices = (run disk (.validate options)).notices) := by
  refine ⟨fun policy h => checks_of_ok (loadPolicy_eq_ok_iff.mpr h), ?refused, ?presentation⟩
  case refused =>
    intro hnone
    cases h : loadPolicy disk options.config options.overrides with
    | error failure => exact refuses_of_error h
    | ok policy => exact absurd (loadPolicy_eq_ok_iff.mp h) (hnone policy)
  case presentation =>
    intro args' options' accepted' hsame
    have hchecking := ofArguments_withoutPresentation accepted
    have hchecking' := ofArguments_withoutPresentation accepted'
    rw [hsame, hchecking] at hchecking'
    have hoptions : options.checking = options'.checking := by
      injection hchecking' with hcommand
      injection hcommand
    obtain ⟨hstatus, hnotices⟩ := validate_checking disk options
    obtain ⟨hstatus', hnotices'⟩ := validate_checking disk options'
    rw [hoptions] at hstatus hnotices
    exact ⟨hstatus'.symm.trans hstatus, hnotices'.symm.trans hnotices⟩

/-- A document that is valid, one that is refused, one that is not JSON, and settings. -/
def drafts : FileTree := .directory [
  ("a.json", .file ("\x7b\"author\": \"A\", \"name\": \"N\", \"strategy\": "
    ++ "\x7b\"function\": \"ifthen\", \"if\": 1, \"then\": []\x7d\x7d").toUTF8),
  ("b.json", .file "null".toUTF8),
  ("c.json", .file "[1".toUTF8),
  ("t.ini", .file "[validator]\nstrict = true\n".toUTF8)]

/-- The check of the three documents under some settings. -/
def draftOptions (config : String) (output : Option Output) : Options :=
  { Options.empty with paths := ["a.json", "b.json", "c.json"], config := config, output := output }

theorem resolves_draftOptions :
    (draftOptions "t.ini" none).Resolves drafts.disk ⟨true, 128, true⟩ :=
  loadPolicy_eq_ok_iff.mp (by decide +kernel)

theorem not_resolves_draftOptions (policy : Policy) :
    ¬ (draftOptions "u.ini" none).Resolves drafts.disk policy := by
  intro h
  have hloaded : loadPolicy drafts.disk (some "u.ini") ⟨false, none, none⟩ = .ok policy :=
    loadPolicy_eq_ok_iff.mpr h
  have hfailed : (loadPolicy drafts.disk (some "u.ini") ⟨false, none, none⟩).toOption = none := by
    decide +kernel
  rw [hloaded] at hfailed
  cases hfailed

theorem not_acceptsAll_drafts (policy : Policy) : ¬ drafts.disk.AcceptsAll policy "c.json" := by
  rintro ⟨found, hfound, hall⟩
  have hpath : ["c.json"] = found := Except.ok.inj hfound
  obtain ⟨document, hload, _⟩ :=
    (Disk.acceptsAt_iff _ _ _).mp (hall "c.json" (hpath ▸ List.mem_cons_self))
  have hunread : (drafts.disk.documents.load "c.json").toOption.isSome = false := by
    decide +kernel
  rw [hload] at hunread
  cases hunread

/-- Each kind of document is reported in its own way, the status is not zero, and the format makes
no difference to it.  Settings that are not there decide before any document does. -/
theorem run_validate_drafts :
    (run drafts.disk (.validate (draftOptions "t.ini" none))).output
        = "OK    a.json: 'N' by A\nFAIL  b.json: 1 error(s)\n"
          ++ "      <root>: WrongTopLevelShape: expected a strategy object, found null\n" ∧
      lines (run drafts.disk (.validate (draftOptions "t.ini" none))).notices
        = ["Loading config from t.ini",
            "error: c.json: invalid JSON in c.json: EOF while parsing a list at line 1 column 2",
            "", "1 valid, 1 invalid, 1 unreadable"].flatMap lines ++ [[]] ∧
      (run drafts.disk (.validate (draftOptions "t.ini" none))).status ≠ 0 ∧
      (run drafts.disk (.validate (draftOptions "t.ini" (some .json)))).notices
        = (run drafts.disk (.validate (draftOptions "t.ini" none))).notices ∧
      (run drafts.disk (.validate (draftOptions "u.ini" none))).status = 2 := by
  have checking := run_validate drafts.disk
    (show Command.ofArguments ["validate", "-c", "t.ini", "a.json", "b.json", "c.json"]
      = .ok (.validate (draftOptions "t.ini" none)) from rfl)
  have refusing := run_validate drafts.disk
    (show Command.ofArguments ["validate", "-c", "u.ini", "a.json", "b.json", "c.json"]
      = .ok (.validate (draftOptions "u.ini" none)) from rfl)
  have checked := checking.1 _ resolves_draftOptions
  have refused := refusing.2.1 not_resolves_draftOptions
  have hmessages : messages (draftOptions "t.ini" none).config
      (drafts.disk.verdicts ⟨true, 128, true⟩ (draftOptions "t.ini" none).paths)
      (drafts.disk.failures ⟨true, 128, true⟩ (draftOptions "t.ini" none).paths)
        = ["Loading config from t.ini",
          "error: c.json: invalid JSON in c.json: EOF while parsing a list at line 1 column 2",
          "", "1 valid, 1 invalid, 1 unreadable"] := by
    decide +kernel
  refine ⟨?_, ?_, ?_, ?_, refused.status⟩
  · rw [checked.output]
    decide +kernel
  · rw [checked.notices, hmessages]
  · exact checked.status.not.mpr fun all => not_acceptsAll_drafts _ (all "c.json" (by decide))
  · exact (checking.2.2 ["validate", "-f", "json", "-c", "t.ini", "a.json", "b.json", "c.json"] _
      rfl (by decide +kernel)).2

end CommandLine

end StrategyDoc
