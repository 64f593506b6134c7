import StrategyDoc.CommandLine.Run

/-! # The program

The program reads its arguments, takes a picture of the files that the command can look at,
runs the command on the picture and prints what it comes to. -/

namespace StrategyDoc.Program

/-- The number of an error of the operating system, whichever sign it is reported with. -/
def errorNumber (code : UInt32) : Nat :=
  if code.toNat < 0x80000000 then code.toNat else 0x100000000 - code.toNat

/-- The fault behind an error of the operating system. -/
def faultOf : IO.Error → FileFault
  | .noFileOrDirectory .. => .notFound
  | .inappropriateType _ code details =>
    match errorNumber code with
    | 20 => .notDirectory
    | 21 => .isDirectory
    | number => .other s!"{details} (os error {number})"
  | .permissionDenied .. => .other "Permission denied (os error 13)"
  | .invalidArgument _ code details =>
    match errorNumber code with
    | 36 => .nameTooLong
    | number => .other s!"{details} (os error {number})"
  | error => .other (toString error)

/-- The bytes of a file, or why they are out of reach. -/
def readContent (location : String) : IO (Except FileFault ByteArray) := do
  try return .ok (← IO.FS.readBinFile location)
  catch error => return .error (faultOf error)

/-- The names in a directory, or why they are out of reach. -/
def readNames (location : String) : IO (Except FileFault (List String)) := do
  try return .ok ((← (System.mkFilePath [location]).readDir).toList.map (·.fileName))
  catch error => return .error (faultOf error)

/-- What stands at a location.  What is neither a file nor a directory can be read like a
file if it is named, but does not count as a file of the directory that it is in. -/
def readEntry (named : Bool) (location : String) : IO (Except FileFault Entry) := do
  if location.isEmpty then return .error .notFound
  try
    match (← (System.mkFilePath [location]).metadata).type with
    | .dir => return .ok (.directory (← readNames location))
    | .file => return .ok (.file (← readContent location))
    | _ =>
      if named then return .ok (.file (← readContent location))
      else return .error .notFound
  catch error => return .error (faultOf error)

/-- The disk that answers as recorded. -/
def recorded (entries : List (String × Except FileFault Entry)) : Disk where
  entry location := (entries.lookup location).getD (.error .notFound)

/-- The locations of the documents that an entry can hold. -/
def candidatesIn : String × Except FileFault Entry → List String
  | (location, .ok (.directory (.ok names))) => Disk.candidates location names
  | _ => []

/-- The disk as far as a command can look at it: the locations that it names, and the
documents in those that are directories. -/
def picture (locations : List String) : IO Disk := do
  let named ← locations.mapM fun location => return (location, ← readEntry true location)
  let inside ← (named.flatMap candidatesIn).mapM fun location =>
    return (location, ← readEntry false location)
  return recorded (named ++ inside)

/-- The locations that a command names. -/
def locationsOf : CommandLine.Command → List String
  | .validate options => options.config.toList ++ options.paths
  | .functions _ => []

/-- How the program is called. -/
def usage : String :=
  "usage: validate PATH... [-c|--config FILE] [--strict] [--max-depth N]\n"
    ++ "                [--allow-empty-branches true|false] [-f|--format text|json]\n"
    ++ "                [--tree] [--pretty]\n"
    ++ "       functions [NAME]\n"

end StrategyDoc.Program

open StrategyDoc in
/-- Run the command that the arguments name. -/
def main (args : List String) : IO UInt32 := do
  match CommandLine.Command.ofArguments args with
  | .error refusal =>
    match refusal with
    | .help => IO.print Program.usage
    | .misuse => IO.eprint Program.usage
    return refusal.exitStatus.toUInt32
  | .ok command =>
    let disk ← Program.picture (Program.locationsOf command)
    let result := CommandLine.run disk command
    IO.print result.output
    IO.eprint result.notices
    return result.status.toUInt32
