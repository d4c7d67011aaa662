import Rendezvous.Store.Database

/-!
# Files

A small file system: directories, files of bytes and databases, under a working directory that is
always there. Paths are relative texts. `Disk.read` reads a file whole; `Disk.openDatabase` opens
or creates a database, with the directories above it.
-/

namespace Rendezvous

/-- Why the system refused to use a path. -/
inductive PathFault
  | missing
  | exists
  | notDirectory
  | isDirectory
  deriving DecidableEq, Repr

def PathFault.message : PathFault → String
  | .missing => "No such file or directory (os error 2)"
  | .exists => "File exists (os error 17)"
  | .notDirectory => "Not a directory (os error 20)"
  | .isDirectory => "Is a directory (os error 21)"

inductive Entry
  | directory
  | file (bytes : List UInt8)
  | database (content : Database)

/-- The names on the way down from the working directory. -/
abbrev Location := List String

/-- What there is at each location but the working directory itself. -/
structure Disk where
  entries : List (Location × Entry) := []

namespace Disk

def get? (d : Disk) (place : Location) : Option Entry :=
  if place = [] then some .directory else d.entries.lookup place

def set (d : Disk) (place : Location) (entry : Entry) : Disk :=
  ⟨(place, entry) :: d.entries.filter (·.1 ≠ place)⟩

/-- Follows the names of a path; only the last may name nothing. -/
def follow (d : Disk) (here : Location) : List String → Except PathFault Location
  | [] => .ok here
  | name :: rest =>
    match d.get? here with
    | none => .error .missing
    | some .directory =>
      if name = "" ∨ name = "." then follow d here rest
      else if name = ".." then follow d here.dropLast rest
      else follow d (here ++ [name]) rest
    | some _ => .error .notDirectory

def locate (d : Disk) (path : String) : Except PathFault Location :=
  if path = "" then .error .missing else d.follow [] ((path.toList.splitOn '/').map String.ofList)

def read (d : Disk) (path : String) : Except PathFault (List UInt8) := do
  match d.get? (← d.locate path) with
  | none => throw .missing
  | some .directory => throw .isDirectory
  | some (.file bytes) => return bytes
  | some (.database _) => return []

/-! ## Directories -/

/-- Without slashes at the end, and without `.` behind them; text given last character first. -/
def trimEnd : List Char → List Char
  | '/' :: rest => trimEnd rest
  | '.' :: '/' :: rest => trimEnd rest
  | reversed => reversed

/-- The path above a path, if it has one; it is empty for a single name. -/
def parent? (path : String) : Option String :=
  match trimEnd path.toList.reverse with
  | [] => none
  | reversed =>
    let above := reversed.dropWhile (· ≠ '/')
    let trimmed := trimEnd above
    some (if trimmed.isEmpty && ¬ above.isEmpty then "/" else String.ofList trimmed.reverse)

def makeDirectory (d : Disk) (path : String) : Except PathFault Disk := do
  let place ← d.locate path
  match d.get? place with
  | some _ => throw .exists
  | none => return d.set place .directory

def isDirectory (d : Disk) (path : String) : Bool :=
  match d.locate path with
  | .ok place => match d.get? place with
    | some .directory => true
    | _ => false
  | .error _ => false

/-- Makes a directory and those above it that are missing; `depth` bounds how many. -/
def makeDirectories (d : Disk) : (depth : Nat) → (path : String) → Except PathFault Disk
  | 0, _ => .ok d
  | depth + 1, path =>
    if path = "" then .ok d
    else match d.makeDirectory path with
      | .ok d => .ok d
      | .error .missing =>
        match parent? path with
        | none => .error .missing
        | some above => do
          let d ← makeDirectories d depth above
          match d.makeDirectory path with
          | .ok d => .ok d
          | .error fault => if d.isDirectory path then .ok d else .error fault
      | .error fault => if d.isDirectory path then .ok d else .error fault

def withFile (d : Disk) (path : String) (bytes : List UInt8) : Disk :=
  let d := match parent? path with
    | some above => (d.makeDirectories path.length above).toOption.getD d
    | none => d
  match d.locate path with
  | .ok place => d.set place (.file bytes)
  | .error _ => d

/-! ## Databases -/

inductive OpenFault
  | noDirectory (path : String) (fault : PathFault)
  | noFile (path : String)
  | notDatabase
  deriving DecidableEq, Repr

def OpenFault.chain : OpenFault → List String
  | .noDirectory path fault => ["Failed to create directory: " ++ path, fault.message]
  | .noFile path =>
    ["Failed to open database: " ++ path, "unable to open database file: " ++ path,
      "Error code 14: Unable to open the database file"]
  | .notDatabase =>
    ["Failed to enable WAL mode", "file is not a database",
      "Error code 26: File opened that is not a database file"]

def OpenFault.message (f : OpenFault) : String := String.intercalate ": " f.chain

/-- An open database, and the location that keeps it when it is closed. -/
structure Opened where
  content : Database
  place : Option Location
  disk : Disk

/-- Opens the database at a path, or makes a new one there. Slashes at the end do not count. -/
def openFile (d : Disk) (path : String) : Except OpenFault Opened :=
  match d.locate (String.ofList (path.toList.reverse.dropWhile (· = '/')).reverse) with
  | .error _ => .error (.noFile path)
  | .ok place =>
    match d.get? place with
    | some .directory => .error (.noFile path)
    | some (.file (_ :: _)) => .error .notDatabase
    | some (.database content) => .ok ⟨content.withTables, some place, d⟩
    | some (.file []) | none => .ok ⟨{}, some place, d.set place (.database {})⟩

/-- Makes the directories above a path and opens the database there. A database without a path, or
at `:memory:`, is kept nowhere. -/
def openDatabase (d : Disk) (path : String) : Except OpenFault Opened :=
  let above := (parent? path).getD ""
  match d.makeDirectories (path.length + 1) above with
  | .error fault => .error (.noDirectory above fault)
  | .ok d =>
    if path = "" ∨ path = ":memory:" then .ok ⟨{}, none, d⟩ else d.openFile path

/-- The disk with what a database holds put back to its location. -/
def close (d : Disk) (place : Option Location) (content : Database) : Disk :=
  match place with
  | some place => d.set place (.database content)
  | none => d

end Disk
end Rendezvous
