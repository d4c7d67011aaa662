import Rendezvous.Proofs.Holding
import Rendezvous.Proofs.Readings

/-!
# Quiet worlds

A world is quiet when its hosts are kept in memory and nothing disturbs its calls. There a call
always ends with the store's answer, and an eviction removes all of its hosts.
-/

namespace Rendezvous

/-- The store without the hosts that have these ids. -/
def Memory.removeAll (m : Memory) (hosts : List Host) : Memory :=
  hosts.foldl (fun m host => (m.deleteById host.id).2) m

theorem Memory.removeAll_spec {m : Memory} (hm : m.Consistent) (hosts : List Host) :
    (m.removeAll hosts).Consistent ∧
      ∀ h, (m.removeAll hosts).Holds h ↔ m.Holds h ∧ ∀ host ∈ hosts, h.id ≠ host.id := by
  induction hosts generalizing m with
  | nil => exact ⟨hm, fun h => by simp [removeAll]⟩
  | cons host rest ih =>
    rcases m.deleteById_cases hm host.id with ⟨he, hn⟩ | ⟨found, he, hh, hid⟩
    · have hr : m.removeAll (host :: rest) = m.removeAll rest := by
        rw [removeAll, List.foldl_cons, he]
        rfl
      rw [hr]
      refine ⟨(ih hm).1, fun h => ?_⟩
      rw [(ih hm).2, List.forall_mem_cons]
      have hne := (Memory.findById_eq_none_iff hm).mp hn
      exact ⟨fun ⟨hh, hr⟩ => ⟨hh, hne h hh, hr⟩, fun ⟨hh, _, hr⟩ => ⟨hh, hr⟩⟩
    · have hr : m.removeAll (host :: rest) = (m.remove found).removeAll rest := by
        rw [removeAll, List.foldl_cons, he]
        rfl
      have hm' := hm.remove hh
      rw [hr]
      refine ⟨(ih hm').1, fun h => ?_⟩
      rw [(ih hm').2, Memory.holds_remove, List.forall_mem_cons, hid, and_assoc]

namespace World

/-- The hosts are kept in memory, and no call is disturbed. -/
structure Quiet (w : World) (m : Memory) : Prop where
  backing : w.backing = .memory m
  disturbances : w.disturbances = []

/-- The second world has the same clock, the same draws to come and the same time gone by. -/
structure Steady (w w' : World) : Prop extends w.SameClock w' where
  draws : w'.draws = w.draws
  elapsed : w'.elapsed = w.elapsed

namespace Steady

theorem refl (w : World) : w.Steady w := ⟨.refl w, rfl, rfl⟩

theorem trans {a b c : World} (hab : a.Steady b) (hbc : b.Steady c) : a.Steady c :=
  ⟨hab.toSameClock.trans hbc.toSameClock, hbc.draws.trans hab.draws,
    hbc.elapsed.trans hab.elapsed⟩

theorem note (w : World) (event : Event) : w.Steady (w.note event) := ⟨⟨rfl, rfl, rfl⟩, rfl, rfl⟩

end Steady

namespace Quiet

variable {w : World} {m : Memory}

theorem note (h : w.Quiet m) (event : Event) : (w.note event).Quiet m :=
  ⟨h.backing, h.disturbances⟩

theorem reach (h : w.Quiet m) (command : Command) :
    w.reach command = (.answered (m.run w.draws command).1,
      { w with backing := .memory (m.run w.draws command).2.1
               draws := (m.run w.draws command).2.2 }) := by
  simp only [World.reach, h.backing, Backing.run]

theorem launch (h : w.Quiet m) (command : Command) (limit : Nat) :
    ∃ after, w.launch command limit = (⟨w.elapsed, some .pass⟩, after) ∧
      after.Quiet m ∧ w.Steady after := by
  refine ⟨{ w with disturbances := [], calls := command.operation :: w.calls }, ?_,
    ⟨h.backing, rfl⟩, ⟨⟨rfl, rfl, rfl⟩, rfl, rfl⟩⟩
  simp [World.launch, h.disturbances, Disturbance.meet]

theorem call (h : w.Quiet m) (command : Command) (limit : Nat) :
    ∃ after, w.call command limit = (.answered (m.run w.draws command).1, after) ∧
      after.Quiet (m.run w.draws command).2.1 ∧ w.SameClock after ∧
      after.draws = (m.run w.draws command).2.2 := by
  obtain ⟨b, hl, hb, hs⟩ := h.launch command limit
  have hwait : b.waitUntil w.elapsed = b := by
    rw [waitUntil, if_neg (by rw [hs.elapsed]; omega)]
  refine ⟨{ b with backing := .memory (m.run w.draws command).2.1
                   draws := (m.run w.draws command).2.2 }, ?_, ⟨rfl, hb.disturbances⟩,
    ⟨hs.clock, hs.tick, hs.clockReads⟩, rfl⟩
  simp only [World.call, hl, hwait, land, hb.reach, hs.draws]

theorem launchAll (h : w.Quiet m) (limit : Nat) (hosts : List Host) :
    ∃ after, w.launchAll limit hosts
        = (hosts.map (.waiting · ⟨w.elapsed, some .pass⟩), after) ∧
      after.Quiet m ∧ w.Steady after := by
  induction hosts generalizing w with
  | nil => exact ⟨w, rfl, h, .refl w⟩
  | cons host rest ih =>
    obtain ⟨b, hl, hb, hs⟩ := h.launch (.deleteById host.id) limit
    obtain ⟨c, hr, hc, hs'⟩ := ih hb
    refine ⟨c, ?_, hc, hs.trans hs'⟩
    simp only [World.launchAll, hl, hr, hs.elapsed, List.map_cons]

theorem landEviction (h : w.Quiet m) (limit : Nat) (host : Host) :
    ∃ removed after, w.landEviction limit host (some .pass) = (removed, after) ∧
      after.Quiet (m.deleteById host.id).2 ∧ w.Steady after := by
  simp only [World.landEviction, land, h.reach]
  have hq : World.Quiet { w with backing := .memory (m.run w.draws (.deleteById host.id)).2.1
                                 draws := (m.run w.draws (.deleteById host.id)).2.2 }
      (m.deleteById host.id).2 := ⟨rfl, h.disturbances⟩
  cases @Eviction.event? host limit
      (.answered (m.run w.draws (.deleteById host.id)).1) with
  | none => exact ⟨_, _, rfl, hq, ⟨⟨rfl, rfl, rfl⟩, rfl, rfl⟩⟩
  | some event => exact ⟨_, _, rfl, hq.note event, ⟨⟨rfl, rfl, rfl⟩, rfl, rfl⟩⟩

theorem landDue (h : w.Quiet m) (limit : Nat) (hosts : List Host) {time : Nat}
    (ht : time ≤ w.elapsed) :
    ∃ slots after, w.landDue limit (hosts.map (.waiting · ⟨time, some .pass⟩)) = (slots, after) ∧
      (∀ slot ∈ slots, slot.isOver = true) ∧ after.Quiet (m.removeAll hosts) ∧ w.Steady after := by
  induction hosts generalizing w m with
  | nil => exact ⟨[], w, rfl, fun _ hs => (by cases hs), h, .refl w⟩
  | cons host rest ih =>
    obtain ⟨removed, b, hl, hb, hs⟩ := h.landEviction limit host
    obtain ⟨slots, c, hr, ho, hc, hs'⟩ := ih hb (by rw [hs.elapsed]; exact ht)
    refine ⟨.ended removed :: slots, c, ?_, ?_, hc, hs.trans hs'⟩
    · simp only [List.map_cons, World.landDue, if_pos ht, hl, hr]
    · exact List.forall_mem_cons.mpr ⟨rfl, ho⟩

end Quiet

theorem landDue_over (w : World) (limit : Nat) {slots : List Slot}
    (ho : ∀ slot ∈ slots, slot.isOver = true) : w.landDue limit slots = (slots, w) := by
  induction slots with
  | nil => rfl
  | cons slot rest ih =>
    rw [List.forall_mem_cons] at ho
    cases slot with
    | waiting host flight => cases ho.1
    | ended removed => simp only [landDue, ih ho.2]

theorem landAt_over {w : World} (limit : Nat) {slots : List Slot} {times : List Nat}
    (ho : ∀ slot ∈ slots, slot.isOver = true) (ht : ∀ time ∈ times, time ≤ w.elapsed) :
    w.landAt limit slots times = (slots, w) := by
  induction times with
  | nil => rfl
  | cons time times ih =>
    rw [List.forall_mem_cons] at ht
    have hwait : w.waitUntil time = w := by
      rw [waitUntil, if_neg (by omega)]
    simp only [landAt, hwait, w.landDue_over limit ho, ih ht.2]

/-- An eviction removes its hosts, and does nothing else to the store. -/
theorem Quiet.evict {w : World} {m : Memory} (h : w.Quiet m) (hosts : List Host) (limit : Nat) :
    ∃ removed after, w.evict hosts limit = (removed, after) ∧
      after.Quiet (m.removeAll hosts) ∧ w.SameClock after ∧ after.draws = w.draws := by
  obtain ⟨b, hl, hb, hs⟩ := h.launchAll limit hosts
  have hwake : (hosts.map (Slot.waiting · ⟨w.elapsed, some .pass⟩)).filterMap Slot.wake?
      = hosts.map fun _ => w.elapsed := by
    rw [List.filterMap_map, ← List.filterMap_eq_map]
    rfl
  have htimes : ∀ time ∈ (hosts.map fun _ => w.elapsed).mergeSort, time = b.elapsed := by
    intro time ht
    rw [List.mem_mergeSort, List.mem_map] at ht
    obtain ⟨_, _, rfl⟩ := ht
    exact hs.elapsed.symm
  simp only [World.evict, hl, hwake]
  cases htl : (hosts.map fun _ => w.elapsed).mergeSort with
  | nil =>
    have hnil : hosts = [] := by
      have hlen := congrArg List.length htl
      simpa using hlen
    subst hnil
    exact ⟨_, _, rfl, hb, hs.toSameClock, hs.draws⟩
  | cons time times =>
    rw [htl, List.forall_mem_cons] at htimes
    obtain ⟨rfl, htimes⟩ := htimes
    have hwait : b.waitUntil b.elapsed = b := by
      rw [waitUntil, if_neg (by omega)]
    obtain ⟨slots, c, hd, ho, hc, hs'⟩ := hb.landDue limit hosts (Nat.le_of_eq hs.elapsed.symm)
    have hrest : c.landAt limit slots times = (slots, c) := by
      refine landAt_over limit ho fun time ht => ?_
      exact Nat.le_of_eq ((htimes time ht).trans hs'.elapsed.symm)
    simp only [landAt, hwait, hd, hrest]
    exact ⟨_, _, rfl, hc, (hs.trans hs').toSameClock, (hs.trans hs').draws⟩

end World
end Rendezvous
