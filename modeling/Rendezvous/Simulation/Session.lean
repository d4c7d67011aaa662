import Rendezvous.Api.Handler
import Rendezvous.Simulation.Journal
import Rendezvous.Simulation.Reply
import Rendezvous.Simulation.Run
import Rendezvous.Simulation.Schedule

/-!
# Sessions

A directory and a settings document over one store, in a world that the session controls. The steps
of a session ask the services or the store, one after the other or side by side, or change the
world around them.
-/

namespace Rendezvous

/-- What can be asked of the services. -/
inductive Demand
  | register (announcement : Announcement)
  | findById (id : String)
  | findByCode (code : String)
  | deleteById (id : String)
  | deleteByCode (code : String)
  | refresh (id : String)
  | listLive
  | readSettings
  | updateSettings (token : Option String) (body : Json)
  | authorize (token : Option String)
  | http (request : Api.Request)

def Demand.interaction (terms : Terms) (guard : Guard) : Demand → Interaction Reply
  | .register a => (Directory.register terms a).map (.ofAttempt .host)
  | .findById id => (Directory.findById terms id).map (.ofAttempt .host)
  | .findByCode code => (Directory.findByCode terms code).map (.ofAttempt .host)
  | .deleteById id => (Directory.deleteById terms id).map (.ofAttempt .host)
  | .deleteByCode code => (Directory.deleteByCode terms code).map (.ofAttempt .host)
  | .refresh id => (Directory.refresh terms id).map (.ofAttempt .host)
  | .listLive => (Directory.listLive terms).map (.ofAttempt .hosts)
  | .readSettings => guard.read.map (.ofAttempt .document)
  | .updateSettings token body =>
    (guard.update token body).map (.ofAttempt fun merged => .document (some merged))
  | .authorize token => .done (.ofAttempt (fun _ => .done) (guard.authorize token))
  | .http request => (Api.handle terms guard request).map .response

/-- A demand, or a command for the store itself: without a deadline, and met by no disturbance. -/
inductive Act
  | serve (demand : Demand)
  | store (command : Command)

inductive Step
  | act (act : Act)
  /-- Acts side by side. -/
  | together (acts : List Act)
  | setClock (moment : Instant)
  | advance (duration : Duration)
  | script (blocks : List Block)
  | disturb (disturbance : Disturbance)
  /-- Takes all disturbances away. -/
  | calm
  | count
  | tellElapsed
  /-- New services over the same store. -/
  | configure (terms : Terms) (token : Option String)
  /-- A new store, and new services over it. -/
  | restart
  | shutdown
  | stall
  | release
  | plantHost (row : Row)
  | plantSettings (body : String)
  | dropTable (table : Table)

structure Session where
  world : World
  terms : Terms
  guard : Guard
  home : Home
  place : Option Location := none
  disk : Disk

structure Setup where
  home : Home
  clock : Instant
  tick : Duration := ⟨0⟩
  terms : Terms := {}
  token : Option String := none
  draws : Draws := {}
  disk : Disk := {}

namespace World

def direct (w : World) (command : Command) : Reply × World :=
  let (outcome, w) := w.reach command
  (.ofOutcome command outcome, w)

def counters (w : World) : Counters where
  calls := (Operation.all.map fun op => (op, w.calls.count op)).filter (·.2 ≠ 0)
  draws := w.draws.taken
  clockReads := w.clockReads

end World

namespace Session

/-- The services warn when they are set up without a token. -/
def warn (s : Session) : Session :=
  { s with world := s.guard.warning.elim s.world s.world.note }

def start (setup : Setup) : Except Disk.OpenFault Session := do
  let opened ← setup.home.openOn setup.disk
  let world : World :=
    { clock := setup.clock, tick := setup.tick, draws := setup.draws, backing := opened.backing }
  let session : Session :=
    { world, terms := setup.terms, guard := ⟨setup.token, setup.terms.storageLimit⟩
      home := setup.home, place := opened.place, disk := opened.disk }
  return session.warn

def restart (s : Session) : Except Disk.OpenFault Session := do
  let opened ← s.home.openOn (OpenHome.closed ⟨s.world.backing, s.place, s.disk⟩)
  let world := { s.world with backing := opened.backing, disturbances := [], calls := [] }
  return { s with world, place := opened.place, disk := opened.disk }.warn

/-! ## Acts -/

def act (s : Session) : Act → Reply × World
  | .serve demand => (demand.interaction s.terms s.guard).run s.world
  | .store command => s.world.direct command

def begin (s : Session) (w : World) : Act → Progress Reply × World
  | .serve demand => (demand.interaction s.terms s.guard).advance w
  | .store command => let (reply, w) := w.direct command; (.finished reply, w)

def beginAll (s : Session) (w : World) : List Act → List (Progress Reply) × World
  | [] => ([], w)
  | act :: rest =>
    let (p, w) := s.begin w act
    let (rest, w) := beginAll s w rest
    (p :: rest, w)

/-- More calls than acts side by side can make. A listing makes one call for each host, one for
each host that the other acts add, and one more; a registration makes one call for each code. -/
def rounds (s : Session) (acts : List Act) : Nat :=
  acts.length * (s.terms.attempts + s.world.backing.population + acts.length + 1)

def together (s : Session) (acts : List Act) : Reply × World :=
  let (begun, w) := s.beginAll s.world acts
  let (ended, w) := Schedule.settle (s.rounds acts) w begun
  (.together (ended.map fun p => p.value?.getD .unfinished), w)

/-! ## Steps -/

/-- What a step leads to; the journal goes on from the one before. -/
def step (s : Session) : Step → Reply × Session
  | .act a => let (reply, world) := s.act a; (reply, { s with world })
  | .together acts => let (reply, world) := s.together acts; (reply, { s with world })
  | .setClock moment => (.done, { s with world.clock := moment })
  | .advance duration =>
    let clock := (s.world.clock.advance? duration).getD s.world.clock
    (.moment clock, { s with world.clock := clock })
  | .script blocks => (.done, { s with world.draws := s.world.draws.extend blocks })
  | .disturb d => (.done, { s with world.disturbances := s.world.disturbances ++ [d] })
  | .calm => (.done, { s with world.disturbances := [] })
  | .count => (.counted s.world.counters, s)
  | .tellElapsed => (.elapsed s.world.elapsed, s)
  | .configure terms token =>
    (.done, { s with terms, guard := ⟨token, terms.storageLimit⟩ }.warn)
  | .restart =>
    match s.restart with
    | .ok s => (.done, s)
    | .error fault => (.notReopened fault, s)
  | .shutdown =>
    let (taken, backing, draws) := s.world.backing.shutdown s.world.draws
    let reply := if taken then Reply.done else .storeFailed .stopped
    (reply, { s with world := { s.world with backing, draws } })
  | .stall => (.done, { s with world.backing := s.world.backing.park })
  | .release =>
    let (backing, draws) := s.world.backing.release s.world.draws
    (.done, { s with world := { s.world with backing, draws } })
  | .plantHost row =>
    (.done, { s with world.backing := s.world.backing.alter (·.plantHost row) })
  | .plantSettings body =>
    (.done, { s with world.backing := s.world.backing.alter (·.plantSettings body) })
  | .dropTable table =>
    (.done, { s with world.backing := s.world.backing.alter (·.drop table) })

/-- What was logged since the journal was last taken, and the session with an empty journal. -/
def takeJournal (s : Session) : List Event × Session :=
  (Journal.arrange s.world.journal.reverse, { s with world.journal := [] })

/-- What each step leads to, with what it logs. -/
def play (s : Session) : List Step → List (Reply × List Event)
  | [] => []
  | step :: rest =>
    let (reply, s) := s.step step
    let (events, s) := s.takeJournal
    (reply, events) :: play s rest

end Session
end Rendezvous
