import Rendezvous.Simulation.Run

/-!
# Runs under given clock readings

`Interaction.runBy` is a run in which the clock shows, at reading number `k`, whatever a given
sequence of instants has there. A run in a world whose clock moves by ticks is such a run
(`Interaction.run_eq_runBy`): nothing but a reading touches the clock.
-/

namespace Rendezvous

/-- A run in which reading number `k` of the clock shows `clock k`. -/
def Interaction.runBy {α : Type} (clock : Nat → Instant) : Interaction α → World → α × World
  | .done value, w => (value, w)
  | .readClock next, w =>
    let (now, w) := { w with clock := clock w.clockReads }.readClock
    (next now).runBy clock w
  | .draw next, w =>
    let (uuid, w) := w.draw
    (next uuid).runBy clock w
  | .call command limit next, w =>
    let (outcome, w) := w.call command limit
    (next outcome).runBy clock w
  | .evict hosts limit next, w =>
    let (removed, w) := w.evict hosts limit
    (next removed).runBy clock w
  | .log event next, w => next.runBy clock (w.note event)

namespace World

/-- The second world shows the same time, and its clock has been read as often. -/
structure SameClock (w w' : World) : Prop where
  clock : w'.clock = w.clock
  tick : w'.tick = w.tick
  clockReads : w'.clockReads = w.clockReads

namespace SameClock

theorem refl (w : World) : w.SameClock w := ⟨rfl, rfl, rfl⟩

theorem trans {a b c : World} (hab : a.SameClock b) (hbc : b.SameClock c) : a.SameClock c :=
  ⟨hbc.clock.trans hab.clock, hbc.tick.trans hab.tick, hbc.clockReads.trans hab.clockReads⟩

theorem launch (w : World) (command : Command) (limit : Nat) :
    w.SameClock (w.launch command limit).2 := by
  simp only [World.launch]
  split
  · exact ⟨rfl, rfl, rfl⟩
  · exact ⟨rfl, rfl, rfl⟩

theorem waitUntil (w : World) (time : Nat) : w.SameClock (w.waitUntil time) := by
  unfold World.waitUntil
  split
  · exact ⟨rfl, rfl, rfl⟩
  · exact refl w

theorem land (w : World) (command : Command) (treatment : Option Treatment) :
    w.SameClock (w.land command treatment).2 := by
  unfold World.land
  split
  · exact refl w
  · exact ⟨rfl, rfl, rfl⟩
  · exact refl w
  · split
    · exact refl w
    · exact ⟨rfl, rfl, rfl⟩

theorem call (w : World) (command : Command) (limit : Nat) :
    w.SameClock (w.call command limit).2 :=
  ((launch w command limit).trans (waitUntil _ _)).trans (land _ _ _)

theorem launchAll (w : World) (limit : Nat) (hosts : List Host) :
    w.SameClock (w.launchAll limit hosts).2 := by
  induction hosts generalizing w with
  | nil => exact refl w
  | cons host rest ih => exact (launch w _ limit).trans (ih _)

theorem landEviction (w : World) (limit : Nat) (host : Host) (treatment : Option Treatment) :
    w.SameClock (w.landEviction limit host treatment).2 := by
  refine (land w (.deleteById host.id) treatment).trans ?_
  simp only [World.landEviction]
  cases Eviction.event? limit (w.land (.deleteById host.id) treatment).1 with
  | none => exact refl _
  | some event => exact ⟨rfl, rfl, rfl⟩

theorem landDue (w : World) (limit : Nat) (slots : List Slot) :
    w.SameClock (w.landDue limit slots).2 := by
  induction slots generalizing w with
  | nil => exact refl w
  | cons slot rest ih =>
    cases slot with
    | ended removed => exact ih w
    | waiting host flight =>
      simp only [World.landDue]
      split
      · exact (landEviction w limit host flight.treatment).trans (ih _)
      · exact ih w

theorem landAt (w : World) (limit : Nat) (slots : List Slot) (times : List Nat) :
    w.SameClock (w.landAt limit slots times).2 := by
  induction times generalizing w slots with
  | nil => exact refl w
  | cons time times ih =>
    exact ((waitUntil w time).trans (landDue _ limit slots)).trans (ih _ _)

theorem evict (w : World) (hosts : List Host) (limit : Nat) :
    w.SameClock (w.evict hosts limit).2 :=
  (launchAll w limit hosts).trans (landAt _ _ _ _)

end SameClock

def shows (w : World) : (further : Nat) → Instant
  | 0 => w.clock
  | further + 1 => w.readClock.2.shows further

theorem SameClock.shows_eq {w w' : World} (h : w.SameClock w') (further : Nat) :
    w'.shows further = w.shows further := by
  induction further generalizing w w' with
  | zero => exact h.clock
  | succ further ih =>
    refine ih ⟨?_, h.tick, ?_⟩
    · simp only [readClock, h.clock, h.tick]
    · simp only [readClock, h.clockReads]

def Follows (w : World) (clock : Nat → Instant) : Prop :=
  ∀ further, w.shows further = clock (w.clockReads + further)

/-- The readings that a clock moving by ticks shows. -/
theorem follows_shows (w : World) : w.Follows fun n => w.shows (n - w.clockReads) := by
  intro further
  exact congrArg w.shows (Nat.add_sub_cancel_left ..).symm

theorem Follows.keep {w w' : World} {clock : Nat → Instant} (hw : w.Follows clock)
    (h : w.SameClock w') : w'.Follows clock := by
  intro further
  rw [h.shows_eq, h.clockReads, hw further]

theorem Follows.readClock {w : World} {clock : Nat → Instant} (hw : w.Follows clock) :
    w.readClock.2.Follows clock := by
  intro further
  have h := hw (further + 1)
  rwa [Nat.add_comm further 1, ← Nat.add_assoc, Nat.add_comm 1 further] at h

end World

/-- A run in a world whose clock moves by ticks is a run under the readings of that clock. -/
theorem Interaction.run_eq_runBy {α : Type} (i : Interaction α) {clock : Nat → Instant} {w : World}
    (hw : w.Follows clock) : i.run w = i.runBy clock w := by
  induction i generalizing w with
  | done value => rfl
  | readClock next ih =>
    have hnow : { w with clock := clock w.clockReads } = w := by
      rw [← show w.clock = clock w.clockReads from hw 0]
    simp only [run, runBy, hnow]
    exact ih _ hw.readClock
  | draw next ih => exact ih _ (hw.keep ⟨rfl, rfl, rfl⟩)
  | call command limit next ih => exact ih _ (hw.keep (.call w command limit))
  | evict hosts limit next ih => exact ih _ (hw.keep (.evict w hosts limit))
  | log event next ih => exact ih (hw.keep ⟨rfl, rfl, rfl⟩)

end Rendezvous
