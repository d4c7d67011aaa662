import Rendezvous.Proofs.Holding
import Rendezvous.Proofs.Turns

/-!
# Interleavings over one store

A `MemorySystem` is a store in memory with the demands that are being met over it.
`MemorySystem.Step` lets any of them start or take a turn, `MemorySystem.Run` lists the moves of a
run, the latest last. In a step of `MemorySystem.Disturbed` a call may also be answered as if there
were nothing.
-/

namespace Rendezvous

def Memory.rules (feigned : Bool) : Rules (Memory × Draws) where
  draws x uuid x' := uuid = x.2.draw.1 ∧ x' = (x.1, x.2.draw.2)
  runs x command := (.answered (x.1.run x.2 command).1, (x.1.run x.2 command).2)
  feigned

/-- A store, and the demands that are being met over it in the order of their start. -/
structure MemorySystem where
  store : Memory
  draws : Draws := {}
  threads : List Thread := []

namespace MemorySystem

variable (terms : Terms) (guard : Guard)

/-- A step of the demands, in which all calls are in time. -/
def Steps (feigned : Bool) (s : MemorySystem) (move : Move) (s' : MemorySystem) : Prop :=
  Threads.Step (Memory.rules feigned) terms guard (s.store, s.draws) s.threads move false
    (s'.store, s'.draws) s'.threads

abbrev Step : MemorySystem → Move → MemorySystem → Prop := Steps terms guard false

/-- A step in which a call may be answered as if there were nothing. -/
abbrev Disturbed : MemorySystem → Move → MemorySystem → Prop := Steps terms guard true

inductive Run (start : MemorySystem) : List Move → MemorySystem → Prop
  | nil : Run start [] start
  | snoc {past : List Move} {move : Move} {s s' : MemorySystem} (run : Run start past s)
    (step : s.Step terms guard move s') : Run start (past ++ [move]) s'

variable {terms : Terms} {guard : Guard} {feigned : Bool}

namespace Steps

theorem starts (s : MemorySystem) (demand : Demand) : s.Steps terms guard feigned (.starts demand)
    { s with threads := s.threads ++ [⟨demand, .going (demand.interaction terms guard)⟩] } :=
  Threads.Step.starts demand

theorem goes {s : MemorySystem} {demand : Demand} {old new : Stage} {move : Move}
    {x : Memory × Draws} (who : Nat) (h : s.threads[who]? = some ⟨demand, old⟩)
    (hturns : old.Turns (Memory.rules feigned) who (s.store, s.draws) move false x new) :
    s.Steps terms guard feigned move ⟨x.1, x.2, s.threads.set who ⟨demand, new⟩⟩ :=
  Threads.Step.goes who h hturns

theorem asks {s : MemorySystem} {demand : Demand} {command : Command} {limit : Nat}
    {next : Outcome command → Interaction Reply} (who : Nat)
    (h : s.threads[who]? = some ⟨demand, .going (.call command limit next)⟩) :
    s.Steps terms guard feigned (.asks who command (s.store.run s.draws command).1)
      ⟨(s.store.run s.draws command).2.1, (s.store.run s.draws command).2.2,
        s.threads.set who ⟨demand, .going (next (.answered (s.store.run s.draws command).1))⟩⟩ :=
  .goes who h (.asks limit next false rfl)

end Steps
end MemorySystem

/-! ## The store along a run -/

/-- What a move makes of the store. -/
inductive Memory.Moved (m : Memory) : Move → Memory → Prop
  | still {move : Move} (h : move.isCall = false) : Moved m move m
  | asks (who : Nat) (command : Command) (draws : Draws) :
    Moved m (.asks who command (m.run draws command).1) (m.run draws command).2.1
  | evicts (who : Nat) (host : Host) :
    Moved m (.evicts who host (m.deleteById host.id).1) (m.deleteById host.id).2

theorem Memory.Moved.consistent {m m' : Memory} {move : Move} (h : m.Moved move m')
    (hm : m.Consistent) : m'.Consistent := by
  cases h with
  | still _ => exact hm
  | asks who command draws => exact hm.run draws command
  | evicts who host => exact hm.run {} (.deleteById host.id)

theorem Stage.Turns.moved {feigned : Bool} {who : Nat} {x x' : Memory × Draws} {old new : Stage}
    {move : Move} {late : Bool} (h : old.Turns (Memory.rules feigned) who x move late x' new) :
    x.1.Moved move x'.1 := by
  cases h with
  | draws next hdrawn =>
    obtain ⟨-, rfl⟩ := hdrawn
    exact .still rfl
  | asks limit next late hrun =>
    cases hrun
    exact .asks who _ _
  | evicts next i late hslot hrun =>
    cases hrun
    exact .evicts who _
  | fails limit next hmiss => exact hmiss.elim
  | stalls next i hslot hmiss => exact hmiss.elim
  | reads | notes | misses | sweeps | spares | returns => exact .still rfl

theorem Threads.Step.moved {terms : Terms} {guard : Guard} {feigned late : Bool}
    {x x' : Memory × Draws} {threads threads' : List Thread} {move : Move}
    (h : Step (Memory.rules feigned) terms guard x threads move late x' threads') :
    x.1.Moved move x'.1 := by
  cases h with
  | starts demand => exact .still rfl
  | goes who hw hturns => exact hturns.moved

theorem MemorySystem.Steps.moved {terms : Terms} {guard : Guard} {feigned : Bool}
    {s s' : MemorySystem}
    {move : Move} (h : s.Steps terms guard feigned move s') : s.store.Moved move s'.store :=
  Threads.Step.moved h

def Move.renewal? (id : String) : Move → Option Instant
  | .asks _ (.insert candidate) (some h) => if h.id = id then some candidate.moment else none
  | .asks _ (.touch _ moment) (some h) => if h.id = id then some moment else none
  | _ => none

/-- The moment that moves last gave to the host with an id, if they gave it one. -/
def lastRenewed (moves : List Move) (id : String) : Option Instant :=
  (moves.filterMap (Move.renewal? id)).getLast?

theorem lastRenewed_append (moves : List Move) (move : Move) (id : String) :
    lastRenewed (moves ++ [move]) id
      = (move.renewal? id).or (lastRenewed moves id) := by
  unfold lastRenewed
  rw [filterMap_concat]
  cases move.renewal? id with
  | none => simp
  | some moment => simp

/-- A stored host of the snapshot is as the moves since the snapshot left it. -/
def Tracks (snapshot : List Host) (since : List Move) (store : Memory) : Prop :=
  ∀ host ∈ snapshot, ∀ h, store.Holds h → h.id = host.id →
    h.updatedAt = (lastRenewed since host.id).getD host.updatedAt

theorem tracks_list {store : Memory} (hm : store.Consistent) : Tracks store.list [] store := by
  intro host hmem h hh hid
  rw [Memory.Holds.eq_of_id hh ((Memory.mem_list_iff hm).mp hmem) hid]
  rfl

namespace Tracks

variable {snapshot : List Host} {since : List Move} {store store' : Memory} {move : Move}

/-- A move that renews no host may remove some. -/
theorem keep (ht : Tracks snapshot since store) (hr : ∀ id, move.renewal? id = none)
    (hsub : ∀ h, store'.Holds h → store.Holds h) : Tracks snapshot (since ++ [move]) store' := by
  intro host hmem h hh hid
  rw [lastRenewed_append, hr, Option.none_or]
  exact ht host hmem h (hsub h hh) hid

/-- A move that renews one host leaves the others as they were. -/
theorem renew {new : Host} (ht : Tracks snapshot since store)
    (hr : ∀ id, move.renewal? id = if new.id = id then some new.updatedAt else none)
    (hholds : ∀ h, store'.Holds h → h = new ∨ (store.Holds h ∧ h.id ≠ new.id)) :
    Tracks snapshot (since ++ [move]) store' := by
  intro host hmem h hh hid
  rw [lastRenewed_append, hr]
  rcases hholds h hh with rfl | ⟨hold, hne⟩
  · rw [if_pos hid]
    rfl
  · rw [hid] at hne
    rw [if_neg (Ne.symm hne), Option.none_or]
    exact ht host hmem h hold hid

theorem deleteById (ht : Tracks snapshot since store) (hm : store.Consistent) (id : String)
    (hr : ∀ id, move.renewal? id = none) :
    Tracks snapshot (since ++ [move]) (store.deleteById id).2 := by
  refine ht.keep hr fun h hh => ?_
  rcases store.deleteById_cases hm id with ⟨he, _⟩ | ⟨g, he, _, _⟩
  · rwa [he] at hh
  · rw [he] at hh
    exact (Memory.holds_remove.mp hh).1

theorem asks (ht : Tracks snapshot since store) (hm : store.Consistent) (who : Nat)
    (draws : Draws) (command : Command) :
    Tracks snapshot (since ++ [.asks who command (store.run draws command).1])
      (store.run draws command).2.1 := by
  cases command with
  | insert candidate =>
    simp only [Memory.run]
    rcases store.insert_cases candidate draws with ⟨rest, he⟩ | ⟨id, rest, he, _, _⟩
    · rw [he]
      exact ht.keep (fun _ => rfl) fun _ hh => hh
    · rw [he]
      exact ht.renew (fun _ => rfl) fun _ hh => Memory.holds_add.mp hh
  | findById id => exact ht.keep (fun _ => rfl) fun _ hh => hh
  | findByCode code => exact ht.keep (fun _ => rfl) fun _ hh => hh
  | deleteById id => exact ht.deleteById hm id fun _ => rfl
  | deleteByCode code =>
    refine ht.keep (fun _ => rfl) fun h hh => ?_
    simp only [Memory.run] at hh
    rcases store.deleteByCode_cases hm code with ⟨he, _⟩ | ⟨g, he, _, _⟩
    · rwa [he] at hh
    · rw [he] at hh
      exact (Memory.holds_remove.mp hh).1
  | list => exact ht.keep (fun _ => rfl) fun _ hh => hh
  | touch id moment =>
    simp only [Memory.run]
    rcases store.touch_cases hm id moment with ⟨he, _⟩ | ⟨g, he, _, _⟩
    · rw [he]
      exact ht.keep (fun _ => rfl) fun _ hh => hh
    · rw [he]
      exact ht.renew (fun _ => rfl) fun _ hh => Memory.holds_renew.mp hh
  | settings => exact ht.keep (fun _ => rfl) fun _ hh => hh
  | merge patch => exact ht.keep (fun _ => rfl) fun _ hh => hh

theorem moved (ht : Tracks snapshot since store) (hm : store.Consistent)
    (h : store.Moved move store') : Tracks snapshot (since ++ [move]) store' := by
  cases h with
  | still hcall =>
    refine ht.keep (fun id => ?_) fun _ hh => hh
    cases move with
    | asks => cases hcall
    | _ => rfl
  | asks who command draws => exact ht.asks hm who draws command
  | evicts who host => exact ht.deleteById hm host.id fun _ => rfl

end Tracks
end Rendezvous
