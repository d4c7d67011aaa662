import Rendezvous.Config.Reading
import Rendezvous.Startup.Address
import Rendezvous.Startup.LogFilter
import Rendezvous.Store.Memory

/-!
# Starting the daemon

The daemon loads its configuration, opens its store, counts the hosts on record, and listens. Each
step writes to the log, and the first that fails ends the program with its chain of causes.
-/

namespace Rendezvous

/-- What the daemon tells the log while it starts and stops. -/
inductive Notice
  | starting
  | loaded (path : String)
  | opened (path : String)
  | inMemory
  | onRecord (hosts lifetimeSeconds : Nat)
  | noToken
  | listening (address : String)
  | interrupted
  | finished

namespace Notice

def level : Notice → Level
  | .inMemory | .noToken => .warn
  | _ => .info

def part : Notice → String
  | .noToken => "hostdird::settings"
  | _ => "hostdird"

def message : Notice → String
  | .starting => "Starting hostdird"
  | .loaded path => "Loaded config from " ++ path
  | .opened path => "Opened database at " ++ Quoted.encode path
  | .inMemory => "Using in-memory store; hosts are lost on restart"
  | .onRecord hosts seconds =>
    Decimal.natural hosts ++ " hosts on record, TTL " ++ Decimal.natural seconds ++ "s"
  | .noToken => Event.noToken.message
  | .listening address => "API listening on " ++ address
  | .interrupted => "Shutdown signal received"
  | .finished => "Shutdown complete"

def line (n : Notice) : String := n.level.name ++ " " ++ n.part ++ ": " ++ n.message

end Notice

inductive StartFault
  | load (path : String) (fault : LoadFault)
  | openDatabase (fault : Disk.OpenFault)
  | readHosts (fault : Fault)
  | bind (address : String) (fault : AddressFault)

/-- The messages of the fault, outermost first. -/
def StartFault.chain : StartFault → List String
  | .load path fault => ["Failed to load config from " ++ path, fault.context, fault.cause]
  | .openDatabase fault => fault.chain
  | .readHosts fault => "Failed to read stored hosts" :: fault.chain
  | .bind address fault => ["Failed to bind to " ++ address, fault.message]

/-- Causes, numbered when there are several. -/
def causeLines : List String → String
  | [] => ""
  | [cause] => "\nCaused by:\n    " ++ cause ++ "\n"
  | causes =>
    "\nCaused by:\n" ++ String.join (causes.zipIdx.map fun c =>
      "    " ++ Decimal.natural c.2 ++ ": " ++ c.1 ++ "\n")

/-- What is written to standard error about a chain of messages. -/
def complaint : List String → String
  | [] => ""
  | outermost :: causes => "Error: " ++ outermost ++ "\n" ++ causeLines causes

/-- The surroundings of a start. -/
structure Situation where
  arguments : List String := []
  disk : Disk := {}
  token : EnvironmentValue := .unset

def defaultConfigPath : String := "/etc/hostdir/hostdird.toml"

namespace Daemon

/-- A start so far: the notices given, and how it goes on. -/
abbrev Start (α : Type) := List Notice × Except StartFault α

/-- Opens the store of a configuration; the number of hosts in it. -/
def openStore (c : Config) (disk : Disk) : Start Nat :=
  match c.backend with
  | .memory => ([.inMemory], .ok ({} : Memory).list.length)
  | .database =>
    match disk.openDatabase c.databasePath with
    | .error fault => ([], .error (.openDatabase fault))
    | .ok opened =>
      ([.opened c.databasePath],
        match opened.content.list with
        | .ok hosts => .ok hosts.length
        | .error fault => .error (.readHosts fault))

def andThen {α β : Type} (s : Start α) (next : α → Start β) : Start β :=
  match s.2 with
  | .ok v => let t := next v; (s.1 ++ t.1, t.2)
  | .error fault => (s.1, .error fault)

/-- Everything up to the point where requests would be taken. -/
def start (s : Situation) : Start Config :=
  let path := s.arguments.headD defaultConfigPath
  andThen ([.starting], .ok ()) fun _ =>
  andThen ([], (Config.load s.disk path s.token).mapError (.load path)) fun c =>
  andThen ([.loaded path], .ok ()) fun _ =>
  andThen (openStore c s.disk) fun hosts =>
  andThen ([.onRecord hosts c.terms.lifetimeSeconds], .ok ()) fun _ =>
  andThen (if c.token.isNone then [.noToken] else [], .ok ()) fun _ =>
    match Address.parse c.listen with
    | .error fault => ([], .error (.bind c.listen fault))
    | .ok _ => ([.listening c.listen], .ok c)

/-- What a run of the program leaves behind. -/
structure Report where
  exitCode : Nat
  /-- The log up to the point where requests are taken, or where the start fails. -/
  opening : List String
  /-- The log from the interruption on. -/
  closing : List String := []
  complaint : String := ""

/-- A run that is interrupted once requests are taken; `filter` says what is logged. -/
def run (s : Situation) (filter : Option String) : Report :=
  let (notices, result) := start s
  let directives := LogFilter.ofText filter
  let shown (notices : List Notice) : List String :=
    (notices.filter fun n => LogFilter.allows directives n.part n.level).map Notice.line
  match result with
  | .ok _ =>
    { exitCode := 0, opening := shown notices, closing := shown [.interrupted, .finished] }
  | .error fault =>
    { exitCode := 1, opening := shown notices, complaint := Rendezvous.complaint fault.chain }

end Daemon
end Rendezvous
