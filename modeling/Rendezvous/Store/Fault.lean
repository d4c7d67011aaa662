import Rendezvous.Json.Failure

/-!
# Storage faults

Why a store could not carry out a command. A fault is told as a chain of messages, the outermost
first: what was being done, then what went wrong.
-/

namespace Rendezvous

/-- What a database can hold in one place. -/
inductive CellKind
  | null
  | integer
  | real
  | text
  deriving DecidableEq, Repr

def CellKind.name : CellKind → String
  | .null => "Null"
  | .integer => "Integer"
  | .real => "Real"
  | .text => "Text"

inductive Column
  | id
  | address
  | port
  | code
  | createdAt
  | updatedAt
  deriving DecidableEq, Repr

namespace Column

def index : Column → Nat
  | .id => 0
  | .address => 1
  | .port => 2
  | .code => 3
  | .createdAt => 4
  | .updatedAt => 5

def name : Column → String
  | .id => "id"
  | .address => "address"
  | .port => "port"
  | .code => "code"
  | .createdAt => "created_at"
  | .updatedAt => "updated_at"

end Column

/-- Why a stored row is no host. -/
inductive RowFault
  | wrongKind (kind : CellKind) (column : Column)
  | outOfRange (value : Int) (column : Column)
  | badInstant (column : Column) (flaw : Stamp.Flaw)
  deriving DecidableEq, Repr

def RowFault.chain : RowFault → List String
  | .wrongKind kind column =>
    ["Invalid column type " ++ kind.name ++ " at index: " ++ Decimal.natural column.index ++
      ", name: " ++ column.name]
  | .outOfRange value column =>
    ["Integer " ++ Decimal.integer value ++ " out of range at index " ++
      Decimal.natural column.index]
  | .badInstant column flaw =>
    ["Conversion error from type Text at index: " ++ Decimal.natural column.index ++ ", " ++
      flaw.message, flaw.message]

inductive Activity
  | inserting
  | queryingById
  | queryingByCode
  | preparing
  | collecting
  | refreshing
  | queryingSettings
  deriving DecidableEq, Repr

def Activity.failed : Activity → String
  | .inserting => "Failed to insert host"
  | .queryingById => "Failed to query host by id"
  | .queryingByCode => "Failed to query host by code"
  | .preparing => "Failed to prepare query"
  | .collecting => "Failed to collect hosts"
  | .refreshing => "Failed to refresh host"
  | .queryingSettings => "Failed to query settings"

inductive Table
  | hosts
  | settings
  deriving DecidableEq, Repr

def Table.name : Table → String
  | .hosts => "hosts"
  | .settings => "settings"

inductive Fault
  | badRow (during : Activity) (fault : RowFault)
  | noTable (during : Activity) (table : Table)
  | badSettings (failure : Json.Failure)
  /-- The store takes no more commands. -/
  | stopped
  /-- Any other trouble, known only by its messages. -/
  | trouble (messages : List String)
  deriving DecidableEq, Repr

/-- The messages of a fault, outermost first. -/
def Fault.chain : Fault → List String
  | .badRow during fault => during.failed :: fault.chain
  | .noTable during table =>
    [during.failed, "no such table: " ++ table.name, "Error code 1: SQL error or missing database"]
  | .badSettings failure => ["Stored settings are not valid JSON", failure.message]
  | .stopped => ["channel closed"]
  | .trouble messages => messages

def Fault.message (f : Fault) : String := String.intercalate ": " f.chain

end Rendezvous
