import Rendezvous.Host.Basic
import Rendezvous.Json.Printer
import Rendezvous.Json.Record
import Rendezvous.Time.Stamp

/-!
# Hosts as JSON

The written form of each record, with its fields in a fixed order, and the shape it is read by.
-/

namespace Rendezvous

open Json

/-! ## Writing -/

def Host.chars (h : Host) : List Char :=
  bracesOf
    [("id", quote h.id), ("address", quote h.address),
     ("port", Decimal.naturalDigits h.port.val), ("code", quote h.code),
     ("createdAt", quote (Stamp.short h.createdAt)), ("updatedAt", quote (Stamp.short h.updatedAt))]

def Host.print (h : Host) : String := String.ofList h.chars

/-- The value written by `write`, or `null`. -/
def orNull {α : Type} (write : α → List Char) : Option α → List Char
  | some v => write v
  | none => Json.chars .null

def Announcement.print (a : Announcement) : String :=
  String.ofList <| bracesOf
    [("address", orNull quote a.address),
     ("port", orNull (fun p : Port => Decimal.naturalDigits p.val) a.port)]

def Departure.print (d : Departure) : String :=
  String.ofList <| bracesOf [("message", quote d.message), ("host", d.host.chars)]

def Host.printAll (hosts : List Host) : String :=
  String.ofList ('[' :: commas (hosts.map Host.chars) ++ [']'])

/-! ## Reading -/

/-- The fields of a host that have been read. -/
structure Host.Draft where
  id : Option String := none
  address : Option String := none
  port : Option Port := none
  code : Option String := none
  createdAt : Option Instant := none
  updatedAt : Option Instant := none

def Host.Draft.complete (d : Host.Draft) : Except Cause Host := do
  return ⟨← require "id" d.id, ← require "address" d.address, ← require "port" d.port,
    ← require "code" d.code, ← require "createdAt" d.createdAt, ← require "updatedAt" d.updatedAt⟩

def Host.shape : Shape Host.Draft Host where
  name := "struct HostRecord"
  slots :=
    [.of "id" readString (·.id) fun d v => { d with id := v },
     .of "address" readString (·.address) fun d v => { d with address := v },
     .of "port" readPort (·.port) fun d v => { d with port := v },
     .of "code" readString (·.code) fun d v => { d with code := v },
     .of "createdAt" readInstant (·.createdAt) fun d v => { d with createdAt := v },
     .of "updatedAt" readInstant (·.updatedAt) fun d v => { d with updatedAt := v }]
  start := {}
  complete := Host.Draft.complete

/-- The fields of an announcement that have been read; a field may be read as missing. -/
structure Announcement.Draft where
  address : Option (Option String) := none
  port : Option (Option Port) := none

def Announcement.shape : Shape Announcement.Draft Announcement where
  name := "struct RegisterRequest"
  slots :=
    [.of "address" (readOptional readString) (·.address) fun d v => { d with address := some v },
     .of "port" (readOptional readPort) (·.port) fun d v => { d with port := some v }]
  start := {}
  complete d := .ok ⟨d.address.join, d.port.join⟩

structure Departure.Draft where
  message : Option String := none
  host : Option Host := none

def Departure.shape : Shape Departure.Draft Departure where
  name := "struct RemovedHost"
  slots :=
    [.of "message" readString (·.message) fun d v => { d with message := v },
     .of "host" Host.shape.read (·.host) fun d v => { d with host := v }]
  start := {}
  complete d := do return ⟨← require "message" d.message, ← require "host" d.host⟩

end Rendezvous
