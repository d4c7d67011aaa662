import Rendezvous.Config.Basic
import Rendezvous.Json.Failure
import Rendezvous.Store.Disk
import Rendezvous.Text.Utf8
import Rendezvous.Toml.Document

/-!
# Reading the configuration

The configuration is what a file says, over the defaults; a token from the environment wins over
that of the file if it is text, and is passed over without a word if it is not. Entries are read in
the order in which the file has them, and the first that is wrong decides. Keys and sections without
a meaning are passed over. A section may also be an array of its values in order.
-/

namespace Rendezvous

open Toml

/-- Why a value of a configuration file is not what its key takes. -/
inductive ValueFault
  | wrongType (found : String) (expected : String)
  | wrongNumber (found : Int) (expected : String)
  | unknownBackend (name : String)
  | noBackendTable
  | emptyBackendTable
  | largeBackendTable
  | fullTable
  | fullArray
  | notTable (found : String)
  deriving DecidableEq, Repr

def ValueFault.message : ValueFault → String
  | .wrongType found expected => "invalid type: " ++ found ++ ", expected " ++ expected
  | .wrongNumber n expected =>
    "invalid value: integer " ++ Json.ticked (Decimal.integer n) ++ ", expected " ++ expected
  | .unknownBackend name =>
    "unknown variant " ++ Json.ticked name ++ ", expected " ++ Json.ticked Backend.database.name ++
      " or " ++ Json.ticked Backend.memory.name
  | .noBackendTable => "wanted string or table"
  | .emptyBackendTable => "wanted exactly 1 element, found 0 elements"
  | .largeBackendTable => "wanted exactly 1 element, more than 1 element"
  | .fullTable => "expected empty table"
  | .fullArray => "expected empty array"
  | .notTable found => "expected table, found " ++ found

namespace Config

def describe : Value → String
  | .string s => "string " ++ Quoted.encode s
  | .integer n => "integer " ++ Json.ticked (Decimal.integer n)
  | .real x => "floating point " ++ Json.ticked x.text
  | .boolean b => "boolean " ++ Json.ticked (if b then "true" else "false")
  | .array _ | .tables _ => "sequence"
  | .moment | .table _ => "map"

abbrev Setter := Value → Config → Except ValueFault Config

/-- A string; `expected` names the kind of it. -/
def text (expected : String) : Value → Except ValueFault String
  | .string s => .ok s
  | v => .error (.wrongType (describe v) expected)

/-- A whole number below `limit`. -/
def count (limit : Nat) (expected : String) : Value → Except ValueFault Nat
  | .integer n =>
    if 0 ≤ n ∧ n < limit then .ok n.toNat else .error (.wrongNumber n expected)
  | v => .error (.wrongType (describe v) expected)

def word : Value → Except ValueFault Nat := count 18446744073709551616 "u64"

def halfWord : Value → Except ValueFault Nat := count 4294967296 "u32"

def backendNamed (name : String) : Except ValueFault Backend :=
  if name = Backend.database.name then .ok .database
  else if name = Backend.memory.name then .ok .memory
  else .error (.unknownBackend name)

/-- What stands behind the name of a backend in a table must be empty. -/
def emptyContent : Value → Except ValueFault Unit
  | .table entries => if entries.isEmpty then .ok () else .error .fullTable
  | .array items => if items.isEmpty then .ok () else .error .fullTable
  | .tables items => if items.isEmpty then .ok () else .error .fullArray
  | .string _ => .error (.notTable "string")
  | .integer _ => .error (.notTable "integer")
  | .real _ => .error (.notTable "float")
  | .boolean _ => .error (.notTable "boolean")
  | .moment => .error (.notTable "datetime")

/-- A backend: its name, or a table with its name as the only key. -/
def backendOf : Value → Except ValueFault Backend
  | .string name => backendNamed name
  | .table [] => .error .emptyBackendTable
  | .table [(name, content)] => do
    let backend ← backendNamed name
    emptyContent content
    return backend
  | .table _ => .error .largeBackendTable
  | _ => .error .noBackendTable

def directoryKeys : List (String × Setter) :=
  [("backend", fun v c => do return { c with backend := ← backendOf v }),
   ("db_path", fun v c => do return { c with databasePath := ← text "path string" v }),
   ("ttl_secs", fun v c => do return { c with terms.lifetimeSeconds := ← word v }),
   ("code_attempts", fun v c => do return { c with terms.codeAttempts := ← halfWord v }),
   ("storage_timeout_ms", fun v c => do return { c with terms.storageLimit := ← word v }),
   ("sweep_delete_timeout_ms", fun v c => do return { c with terms.evictionLimit := ← word v })]

def apiKeys : List (String × Setter) :=
  [("listen", fun v c => do return { c with listen := ← text "a string" v })]

def settingsKeys : List (String × Setter) :=
  [("token", fun v c => do return { c with token := some (← text "a string" v) })]

def setEntries (keys : List (String × Setter)) : List (String × Value) → Config →
    Except ValueFault Config
  | [], c => .ok c
  | (key, v) :: rest, c =>
    match keys.lookup key with
    | none => setEntries keys rest c
    | some set => do setEntries keys rest (← set v c)

/-- Sets what the items of an array say, one for each key. -/
def setItems : List (String × Setter) → List Value → Config → Except ValueFault Config
  | (_, set) :: keys, v :: rest, c => do setItems keys rest (← set v c)
  | _, _, c => .ok c

/-- A section: a table or an array. A moment has none of the keys. -/
def sectionOf (name : String) (keys : List (String × Setter)) : Setter := fun v c =>
  match v with
  | .table entries => setEntries keys entries c
  | .array items => setItems keys items c
  | .tables items => setItems keys (items.map .table) c
  | .moment => .ok c
  | _ => .error (.wrongType (describe v) name)

def sections : List (String × Setter) :=
  [("directory", sectionOf "struct DirectoryConfig" directoryKeys),
   ("api", sectionOf "struct ApiConfig" apiKeys),
   ("settings", sectionOf "struct SettingsConfig" settingsKeys)]

def ofDocument (entries : List (String × Value)) : Except ValueFault Config :=
  setEntries sections entries {}

end Config

inductive LoadFault
  | unreadable (path : String) (fault : PathFault)
  | notText (path : String)
  | malformed (path : String)
  | badValue (path : String) (fault : ValueFault)
  | refused (path : String) (fault : ConfigFault)
  deriving DecidableEq, Repr

/-- What was being done when loading failed. -/
def LoadFault.context : LoadFault → String
  | .unreadable path _ | .notText path => "Failed to read config file: " ++ path
  | .malformed path | .badValue path _ | .refused path _ => "Failed to parse config file: " ++ path

/-- What went wrong; the place of a syntax error is not told. -/
def LoadFault.cause : LoadFault → String
  | .unreadable _ fault => fault.message
  | .notText _ => "stream did not contain valid UTF-8"
  | .malformed _ => "malformed document"
  | .badValue _ fault => fault.message
  | .refused _ fault => fault.message

def LoadFault.message (f : LoadFault) : String := f.context ++ ": " ++ f.cause

namespace Config

def ofText (path text : String) : Except LoadFault Config :=
  match Toml.parse? .standard text with
  | none => .error (.malformed path)
  | some entries =>
    match ofDocument entries with
    | .error fault => .error (.badValue path fault)
    | .ok c =>
      match c.check with
      | .error fault => .error (.refused path fault)
      | .ok () => .ok c

/-- The configuration in the file at a path, with the token of the environment over the file's. -/
def load (disk : Disk) (path : String) (token : EnvironmentValue) : Except LoadFault Config :=
  match disk.read path with
  | .error fault => .error (.unreadable path fault)
  | .ok bytes =>
    match Utf8.decode? bytes with
    | none => .error (.notText path)
    | some text => (ofText path text).map fun c => { c with token := token.text? <|> c.token }

end Config
end Rendezvous
