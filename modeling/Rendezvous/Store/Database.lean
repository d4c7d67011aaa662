import Rendezvous.Json.Printer
import Rendezvous.Json.Reader
import Rendezvous.Random.Draws
import Rendezvous.Store.Cell
import Rendezvous.Store.Command
import Rendezvous.Time.Stamp
import Rendezvous.Time.Strict

/-!
# The store in a database

A table of hosts, whose ids and codes are unique, and the text of the settings document. Rows are
kept as cells, since a row may have come into the file by other hands; reading one can fail. A
table may be missing, and then what needs it fails.
-/

namespace Rendezvous

structure Row where
  id : Cell
  address : Cell
  port : Cell
  code : Cell
  createdAt : Cell
  updatedAt : Cell
  deriving DecidableEq, Repr

namespace Row

def ofHost (h : Host) : Row :=
  ⟨.text h.id, .text h.address, .integer h.port.val, .text h.code,
    .text (Stamp.full h.createdAt), .text (Stamp.full h.updatedAt)⟩

def instant (column : Column) (text : String) : Except RowFault Instant :=
  match Stamp.strict text with
  | .ok t => .ok t
  | .error flaw => .error (.badInstant column flaw)

/-- The host in a row: the texts of the times first, then the other columns, then the times. -/
def host (r : Row) : Except RowFault Host := do
  let created ← r.createdAt.asText .createdAt
  let updated ← r.updatedAt.asText .updatedAt
  let id ← r.id.asText .id
  let address ← r.address.asText .address
  let port ← r.port.asPort .port
  let code ← r.code.asText .code
  return ⟨id, address, port, code, ← instant .createdAt created, ← instant .updatedAt updated⟩

/-- The order of a listing: by the text of the creation time, then by id. -/
def le (a b : Row) : Bool :=
  if a.createdAt = b.createdAt then a.id.le b.id else a.createdAt.le b.createdAt

def stored (r : Row) : Row :=
  ⟨r.id.inTextColumn, r.address.inTextColumn, r.port.inIntegerColumn, r.code.inTextColumn,
    r.createdAt.inTextColumn, r.updatedAt.inTextColumn⟩

end Row

/-- The tables; `none` for one that is missing. The settings table holds at most one document. -/
structure Database where
  hosts : Option (List Row) := some []
  settings : Option (Option String) := some none
  deriving DecidableEq, Repr

namespace Database

def rows (db : Database) (during : Activity) : Except Fault (List Row) :=
  match db.hosts with
  | some rows => .ok rows
  | none => .error (.noTable during .hosts)

/-- The host of the row that has a text in a column, if there is such a row. -/
def queryOne (db : Database) (during : Activity) (column : Row → Cell) (key : String) :
    Except Fault (Option Host) := do
  let rows ← db.rows during
  match rows.find? fun r => column r = .text key with
  | none => return none
  | some row =>
    match row.host with
    | .ok host => return some host
    | .error fault => throw (.badRow during fault)

def findById (db : Database) (id : String) : Except Fault (Option Host) :=
  db.queryOne .queryingById Row.id id

def findByCode (db : Database) (code : String) : Except Fault (Option Host) :=
  db.queryOne .queryingByCode Row.code code

/-- Adds a host under a given id, unless the id or the code is taken. -/
def insert (db : Database) (candidate : Candidate) (id : String) :
    Except Fault (Option Host) × Database :=
  match db.rows .inserting with
  | .error fault => (.error fault, db)
  | .ok rows =>
    if rows.any fun r => r.id = .text id || r.code = .text candidate.code then (.ok none, db)
    else
      let host := candidate.host id
      (.ok (some host), { db with hosts := some (rows ++ [.ofHost host]) })

def erase (db : Database) (id : String) : Database :=
  { db with hosts := db.hosts.map fun rows => rows.filter fun r => r.id ≠ .text id }

def deleteFound (db : Database) (found : Except Fault (Option Host)) :
    Except Fault (Option Host) × Database :=
  match found with
  | .ok (some host) => (.ok (some host), db.erase host.id)
  | other => (other, db)

def deleteById (db : Database) (id : String) : Except Fault (Option Host) × Database :=
  db.deleteFound (db.findById id)

def deleteByCode (db : Database) (code : String) : Except Fault (Option Host) × Database :=
  db.deleteFound (db.findByCode code)

/-- The hosts of rows; the first row that is none decides. -/
def hostsOf : List Row → Except RowFault (List Host)
  | [] => .ok []
  | row :: rest => do
    let host ← row.host
    return host :: (← hostsOf rest)

def list (db : Database) : Except Fault (List Host) := do
  let rows ← db.rows .preparing
  match hostsOf (rows.mergeSort Row.le) with
  | .ok hosts => return hosts
  | .error fault => throw (.badRow .collecting fault)

/-- Sets when a host was last refreshed, and then reads it. -/
def touch (db : Database) (id : String) (moment : Instant) :
    Except Fault (Option Host) × Database :=
  match db.rows .refreshing with
  | .error fault => (.error fault, db)
  | .ok rows =>
    if rows.any fun r => r.id = .text id then
      let update (r : Row) : Row :=
        if r.id = .text id then { r with updatedAt := .text (Stamp.full moment) } else r
      let db := { db with hosts := some (rows.map update) }
      (db.findById id, db)
    else (.ok none, db)

def readSettings (db : Database) : Except Fault (Option Json) :=
  match db.settings with
  | none => .error (.noTable .queryingSettings .settings)
  | some none => .ok none
  | some (some body) =>
    match Json.parse body with
    | .ok v => .ok (some v)
    | .error failure => .error (.badSettings failure)

def merge (db : Database) (patch : Fields) : Except Fault Json × Database :=
  match db.readSettings with
  | .error fault => (.error fault, db)
  | .ok current =>
    let merged := Json.overlay current patch
    (.ok merged, { db with settings := some (some merged.print) })

/-- Carries out a command. An insert always draws an id. -/
def run (db : Database) (draws : Draws) :
    (command : Command) → Except Fault command.Answer × Database × Draws
  | .insert candidate =>
    let (uuid, draws) := draws.draw
    let (host, db) := db.insert candidate uuid.simple
    (host, db, draws)
  | .findById id => (db.findById id, db, draws)
  | .findByCode code => (db.findByCode code, db, draws)
  | .deleteById id => let (host, db) := db.deleteById id; (host, db, draws)
  | .deleteByCode code => let (host, db) := db.deleteByCode code; (host, db, draws)
  | .list => (db.list, db, draws)
  | .touch id moment => let (host, db) := db.touch id moment; (host, db, draws)
  | .settings => (db.readSettings, db, draws)
  | .merge patch => let (merged, db) := db.merge patch; (merged, db, draws)

def withTables (db : Database) : Database := ⟨some (db.hosts.getD []), some (db.settings.getD none)⟩

/-! ## Changes behind the store's back -/

def plantHost (db : Database) (row : Row) : Database :=
  { db with hosts := db.hosts.map (· ++ [row.stored]) }

def plantSettings (db : Database) (body : String) : Database :=
  { db with settings := db.settings.map fun _ => some body }

def drop (db : Database) : Table → Database
  | .hosts => { db with hosts := none }
  | .settings => { db with settings := none }

end Database
end Rendezvous
