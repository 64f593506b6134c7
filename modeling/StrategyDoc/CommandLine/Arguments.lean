import StrategyDoc.Policy.Resolution
import StrategyDoc.Report

/-! # Arguments

The arguments of the program name a command, `validate` or `functions`, followed by its
options and operands in any order.  They are read from left to right; the first argument
that asks for help or cannot be read decides. -/

namespace StrategyDoc.CommandLine

/-- Why no command is run. -/
inductive Refusal where
  /-- Help was asked for. -/
  | help
  /-- The arguments make no command. -/
  | misuse
deriving DecidableEq, Repr

/-- The exit status of a refusal. -/
def Refusal.exitStatus : Refusal → Nat
  | .help => 0
  | .misuse => 2

/-! ### Single arguments -/

/-- The form of an argument. -/
inductive Word where
  /-- Two dashes: only operands follow. -/
  | dashes
  /-- Two dashes and a name, perhaps with a value behind an equals sign. -/
  | long (name : String) (value : Option String)
  /-- A dash and a letter, perhaps with a value behind it. -/
  | short (letter : Char) (value : Option String)
  | operand (text : String)
deriving DecidableEq, Repr

/-- The value behind a letter, which may stand behind an equals sign. -/
def attached : List Char → Option String
  | [] => none
  | '=' :: value => some (String.ofList value)
  | value => some (String.ofList value)

/-- The form of an argument. -/
def Word.ofString (s : String) : Word :=
  match s.toList with
  | ['-', '-'] => dashes
  | '-' :: '-' :: rest =>
    let name := String.ofList (rest.takeWhile (· != '='))
    match rest.dropWhile (· != '=') with
    | [] => long name none
    | _ :: value => long name (some (String.ofList value))
  | '-' :: letter :: rest => short letter (attached rest)
  | _ => operand s

/-- What an option asks for. -/
inductive Key where
  | help
  | strict
  | tree
  | pretty
  | config
  | maxDepth
  | allowEmptyBranches
  | format
deriving DecidableEq, Repr

/-- The option of a name. -/
def Key.ofName? : String → Option Key
  | "help" => some .help
  | "strict" => some .strict
  | "tree" => some .tree
  | "pretty" => some .pretty
  | "config" => some .config
  | "max-depth" => some .maxDepth
  | "allow-empty-branches" => some .allowEmptyBranches
  | "format" => some .format
  | _ => none

/-- The option of a letter. -/
def Key.ofLetter? : Char → Option Key
  | 'h' => some .help
  | 'c' => some .config
  | 'f' => some .format
  | _ => none

/-- The option has a value. -/
def Key.takesValue : Key → Bool
  | .config => true
  | .maxDepth => true
  | .allowEmptyBranches => true
  | .format => true
  | _ => false

/-! ### The options of `validate` -/

/-- The two kinds of output. -/
inductive Output where
  | text
  | json
deriving DecidableEq, Repr

/-- What has been read of the arguments of `validate`. -/
structure Options where
  paths : List String
  config : Option String
  strict : Bool
  maxDepth : Option Nat
  allowEmptyBranches : Option Bool
  output : Option Output
  tree : Bool
  pretty : Bool
deriving DecidableEq, Repr

namespace Options

/-- Nothing has been read yet. -/
def empty : Options := ⟨[], none, false, none, none, none, false, false⟩

/-- Add an operand, which must not be empty. -/
def addPath (o : Options) (path : String) : Except Refusal Options :=
  if path.isEmpty then .error .misuse else .ok { o with paths := o.paths ++ [path] }

/-- Set an option without value, once. -/
def switchOn (o : Options) : Key → Except Refusal Options
  | .strict => if o.strict then .error .misuse else .ok { o with strict := true }
  | .tree => if o.tree then .error .misuse else .ok { o with tree := true }
  | .pretty => if o.pretty then .error .misuse else .ok { o with pretty := true }
  | _ => .error .misuse

/-- A truth value. -/
def readBool : String → Except Refusal Bool
  | "true" => .ok true
  | "false" => .ok false
  | _ => .error .misuse

/-- A kind of output. -/
def readOutput : String → Except Refusal Output
  | "text" => .ok .text
  | "json" => .ok .json
  | _ => .error .misuse

/-- A number of levels. -/
def readDepth (text : String) : Except Refusal Nat :=
  (Text.readUnsigned text.toList).mapError fun _ => .misuse

/-- Set an option with a value, once. -/
def set (o : Options) (key : Key) (value : String) : Except Refusal Options :=
  match key with
  | .config =>
    if o.config.isSome ∨ value.isEmpty then .error .misuse
    else .ok { o with config := some value }
  | .maxDepth =>
    if o.maxDepth.isSome then .error .misuse
    else (readDepth value).map fun n => { o with maxDepth := some n }
  | .allowEmptyBranches =>
    if o.allowEmptyBranches.isSome then .error .misuse
    else (readBool value).map fun b => { o with allowEmptyBranches := some b }
  | .format =>
    if o.output.isSome then .error .misuse
    else (readOutput value).map fun f => { o with output := some f }
  | _ => .error .misuse

/-- The argument cannot be the value of the option before it. -/
def looksLikeOption (s : String) : Bool :=
  match s.toList with
  | '-' :: _ :: _ => true
  | _ => false

/-- Add operands only. -/
def addPaths (o : Options) : List String → Except Refusal Options
  | [] => .ok o
  | path :: rest => o.addPath path >>= (·.addPaths rest)

/-- Take an option that was named with the value attached to it; an option that still needs
its value is left over. -/
def take (o : Options) (key : Option Key) (value : Option String) :
    Except Refusal (Options × Option Key) :=
  match key, value with
  | none, _ => .error .misuse
  | some key, some value => (o.set key value).map fun o => (o, none)
  | some key, none =>
    if key.takesValue then .ok (o, some key) else (o.switchOn key).map fun o => (o, none)

/-- Read arguments; the first is the value of `pending` if an option still needs one. -/
def read (o : Options) (pending : Option Key) : List String → Except Refusal Options
  | [] => if pending.isSome then .error .misuse else .ok o
  | arg :: rest =>
    match pending with
    | some key =>
      if looksLikeOption arg then .error .misuse
      else o.set key arg >>= fun o => o.read none rest
    | none =>
      match Word.ofString arg with
      | .dashes => o.addPaths rest
      | .operand path => o.addPath path >>= fun o => o.read none rest
      | .short 'h' _ => .error .help
      | .short letter value =>
        o.take (Key.ofLetter? letter) value >>= fun (o, pending) => o.read pending rest
      | .long "help" none => .error .help
      | .long name value =>
        o.take (Key.ofName? name) value >>= fun (o, pending) => o.read pending rest

/-- The overrides of the policy. -/
def overrides (o : Options) : Policy.Overrides := ⟨o.strict, o.maxDepth, o.allowEmptyBranches⟩

/-- The format of the reports. -/
def format (o : Options) : Report.Format :=
  match o.output with
  | some .json => .json o.pretty
  | _ => .text o.tree

end Options

/-! ### Commands -/

/-- What the program is asked to do. -/
inductive Command where
  /-- Check documents. -/
  | validate (options : Options)
  /-- List the catalog, or describe one function. -/
  | functions (name : Option String)
deriving DecidableEq, Repr

/-- Read the operand of `functions`, given the one already read. -/
def readName (name : Option String) : List String → Except Refusal (Option String)
  | [] => .ok name
  | arg :: rest =>
    match Word.ofString arg with
    | .dashes =>
      match name, rest with
      | _, [] => .ok name
      | none, [text] => .ok (some text)
      | _, _ => .error .misuse
    | .operand text => if name.isSome then .error .misuse else readName (some text) rest
    | .short 'h' _ => .error .help
    | .long "help" none => .error .help
    | _ => .error .misuse

/-- The topics that help can be asked for. -/
def helpTopics : List String := ["validate", "functions", "help"]

/-- Read all arguments. -/
def Command.ofArguments : List String → Except Refusal Command
  | [] => .error .misuse
  | "validate" :: rest =>
    Options.empty.read none rest >>= fun o =>
      if o.paths.isEmpty then .error .misuse else .ok (.validate o)
  | "functions" :: rest => (readName none rest).map .functions
  | "help" :: topics =>
    match topics with
    | [] => .error .help
    | [topic] => .error (if helpTopics.contains topic then .help else .misuse)
    | _ => .error .misuse
  | arg :: _ =>
    match Word.ofString arg with
    | .short 'h' _ => .error .help
    | .long "help" none => .error .help
    | _ => .error .misuse

end StrategyDoc.CommandLine
