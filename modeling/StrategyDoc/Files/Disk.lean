import StrategyDoc.Json.Parser
import StrategyDoc.Failure

/-! # Files

A disk answers what stands at a location: the bytes of a file, or the names in a directory,
both of which may be out of reach.
From this follow the reading of texts and of documents, and the discovery of the documents
at a location: a directory stands for its files with the extension `json`, in the order of
their names, and anything else for itself.  Whether a name in a directory is that of a file
is asked of the disk at the location of the name, so a name that cannot be reached through
the location of its directory is passed over. -/

namespace StrategyDoc

/-- Why a file cannot be read. -/
inductive FileFault where
  | notFound
  | notDirectory
  | isDirectory
  | nameTooLong
  | nulInName
  | notUtf8
  | other (message : String)
deriving DecidableEq, Repr

/-- The wording of a fault. -/
def FileFault.message : FileFault → String
  | .notFound => "No such file or directory (os error 2)"
  | .notDirectory => "Not a directory (os error 20)"
  | .isDirectory => "Is a directory (os error 21)"
  | .nameTooLong => "File name too long (os error 36)"
  | .nulInName => "file name contained an unexpected NUL byte"
  | .notUtf8 => "stream did not contain valid UTF-8"
  | .other message => message

/-- What stands at a location. -/
inductive Entry where
  /-- A file, whose content may be out of reach. -/
  | file (content : Except FileFault ByteArray)
  /-- A directory and the names in it, which may be out of reach. -/
  | directory (names : Except FileFault (List String))

/-- What stands at all locations. -/
structure Disk where
  entry : (location : String) → Except FileFault Entry

namespace Disk

/-- The bytes of a file. -/
def readBytes (disk : Disk) (location : String) : Except FileFault ByteArray :=
  match disk.entry location with
  | .ok (.file content) => content
  | .ok (.directory _) => .error .isDirectory
  | .error fault => .error fault

/-- The text of a file. -/
def readText (disk : Disk) (location : String) : Except FileFault String :=
  match disk.readBytes location with
  | .ok content =>
    match String.fromUTF8? content with
    | some text => .ok text
    | none => .error .notUtf8
  | .error fault => .error fault

/-- A file stands at the location. -/
def isFile (disk : Disk) (location : String) : Bool :=
  match disk.entry location with
  | .ok (.file _) => true
  | _ => false

end Disk

/-! ### Documents -/

/-- Where documents are found and read. -/
structure DocumentSource where
  /-- The locations of the documents at a location, in order. -/
  discover : (location : String) → Except Failure (List String)
  /-- The document at a location. -/
  load : (location : String) → Except Failure Json

/-- Read the text of a document from a named source. -/
def Json.ofText (source text : String) : Except Failure Json :=
  (Json.parse? text).mapError (Failure.malformedDocument source)

/-- The part of a name behind its last point, if something stands before the point. -/
def extension? (name : String) : Option String :=
  let reversed := name.toList.reverse
  match reversed.dropWhile (· != '.') with
  | _ :: _ :: _ => some (String.ofList (reversed.takeWhile (· != '.')).reverse)
  | _ => none

/-- The location of a name in a directory. -/
def joinLocation (directory name : String) : String :=
  if directory.toList.getLast? = some '/' then directory ++ name else directory ++ "/" ++ name

namespace Disk

/-- The names with the extension of documents, in the order of their bytes. -/
def documentNames (names : List String) : List String :=
  (names.filter fun name => extension? name == some "json").mergeSort fun a b => decide (a ≤ b)

/-- The locations at which the documents of a directory can stand. -/
def candidates (directory : String) (names : List String) : List String :=
  (documentNames names).map (joinLocation directory)

/-- The locations of the documents at a location. -/
def discover (disk : Disk) (location : String) : Except Failure (List String) :=
  match disk.entry location with
  | .ok (.directory (.ok names)) => .ok ((candidates location names).filter disk.isFile)
  | .ok (.directory (.error fault)) => .error (.inputOutput fault.message)
  | _ => .ok [location]

/-- The document at a location. -/
def load (disk : Disk) (location : String) : Except Failure Json :=
  match disk.readText location with
  | .ok text => Json.ofText location text
  | .error fault => .error (.inputOutput fault.message)

/-- The documents on a disk. -/
def documents (disk : Disk) : DocumentSource where
  discover := disk.discover
  load := disk.load

end Disk

end StrategyDoc
