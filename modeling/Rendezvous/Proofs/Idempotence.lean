import Rendezvous.Proofs.Fates

/-!
# Listings that nothing disturbs

Over a store that works, and with no disturbances, a listing answers with the live hosts, each once
and in their order, and leaves the store with just these. So a second listing at the same time finds
nothing to evict: it gives the same answer and changes nothing (`Directory.listLive_exact`). None of
that depends on how the store arranges its hosts.
-/

namespace Rendezvous

namespace Backing

/-- What is stored, whoever waits for it. -/
def content : Backing → Memory ⊕ Database
  | .memory store => .inl store
  | .database worker _ => .inr worker.database

theorem content_list (b : Backing) (draws : Draws) :
    (b.run draws .list).2.1.content = b.content := by
  match b with
  | .memory store => rfl
  | .database worker false =>
    simp only [Backing.run, Worker.perform]
    split <;> rfl
  | .database worker true =>
    simp only [Backing.run, Worker.submit]
    cases worker.stopped <;> rfl

/-- A backing that works answers a call for all hosts, and stays as it is. -/
theorem Sound.answers_list {b : Backing} (hb : b.Sound) (hworks : b.Works) (draws : Draws) :
    ∃ snapshot, (b.run draws .list).1 = .answered snapshot ∧ snapshot.Pairwise Host.Before ∧
      (∀ h, h ∈ snapshot ↔ b.Holds h) ∧ b.Sheds [] (b.run draws .list).2.1 := by
  have hserves := hb.serves .list trivial draws
  have hsettings := b.settings_run .list (fun _ => nofun) draws
  generalize (b.run draws .list).1 = outcome at *
  generalize (b.run draws .list).2.1 = b' at *
  cases hserves with
  | @answers snapshot _ fits makes sound worked works =>
    cases makes with
    | still same =>
      exact ⟨snapshot, rfl, fits.1, fits.2,
        .same sound (iff_of_true works worked) hsettings same⟩
  | misses miss same sound idle works => exact (idle hworks trivial).elim

/-- The code of a host that was removed can be given to another one. -/
theorem Sheds.insert_freed {b c : Backing} {gone : List Host} (h : b.Sheds gone c) (hb : b.Sound)
    (hworks : b.Works) {host : Host} (hgone : host ∈ gone) {candidate : Candidate} {draws : Draws}
    (hcode : candidate.code = host.code) (hid : ∀ g, c.Holds g → g.id ≠ draws.draw.1.simple) :
    (c.run draws (.insert candidate)).1
      = .answered (some (candidate.host draws.draw.1.simple)) := by
  refine h.sound.insert_free (h.works.mpr hworks) hid fun g hg hsame => ?_
  obtain ⟨hheld, hkept⟩ := (h.left g).mp hg
  rw [hb.eq_of_code hheld (h.held host hgone) (hsame.trans hcode)] at hkept
  exact hkept hgone

end Backing

/-! ## Snapshots -/

/-- Nothing disturbs the world, and its store works. -/
structure World.Calm (w : World) : Prop where
  disturbances : w.disturbances = []
  works : w.backing.Works

theorem World.call_calm {w : World} (hcalm : w.disturbances = []) (command : Command)
    (limit : Nat) :
    w.call command limit
      = World.reach { w with calls := command.operation :: w.calls } command := by
  simp [World.call, World.launch, hcalm, Disturbance.meet, World.waitUntil, World.land]

/-- A call takes a snapshot, and nothing else happens. -/
structure World.Snaps (w : World) (snapshot : List Host) (after : World) : Prop where
  order : snapshot.Pairwise Host.Before
  mem_iff : ∀ h, h ∈ snapshot ↔ w.backing.Holds h
  sheds : w.backing.Sheds [] after.backing
  content : after.backing.content = w.backing.content
  calm : after.disturbances = []
  clock : after.clock = w.clock
  calls : after.calls = .list :: w.calls

theorem World.Calm.snaps {w : World} (hcalm : w.Calm) (hw : w.backing.Sound) (limit : Nat) :
    ∃ snapshot after, w.call .list limit = (.answered snapshot, after) ∧
      w.Snaps snapshot after := by
  obtain ⟨snapshot, hanswer, horder, hmem, hsheds⟩ := hw.answers_list hcalm.works w.draws
  refine ⟨snapshot, { w with
    calls := .list :: w.calls
    backing := (w.backing.run w.draws .list).2.1
    draws := (w.backing.run w.draws .list).2.2 }, ?_, horder, hmem, hsheds,
    w.backing.content_list w.draws, hcalm.disturbances, rfl, rfl⟩
  rw [World.call_calm hcalm.disturbances]
  exact Prod.ext hanswer rfl

namespace Directory

variable (terms : Terms)

theorem listLive_snaps {w : World} (hcalm : w.Calm) (hw : w.backing.Sound) :
    ∃ snapshot after, w.Snaps snapshot after ∧
      (listLive terms).run w = (weigh terms snapshot).run after := by
  obtain ⟨snapshot, after, hcall, hsnaps⟩ := hcalm.snaps hw terms.storageLimit
  refine ⟨snapshot, after, hsnaps, ?_⟩
  rw [listLive_eq_ask, ask, Attempt.ask, Interaction.run, hcall]

end Directory

namespace World.Snaps

variable {w after : World} {snapshot : List Host}

open Directory

theorem holds_iff (h : w.Snaps snapshot after) (host : Host) :
    after.backing.Holds host ↔ w.backing.Holds host :=
  (h.sheds.left host).trans (and_iff_left List.not_mem_nil)

variable (terms : Terms)

theorem mem_live (h : w.Snaps snapshot after) (host : Host) :
    host ∈ live terms snapshot after.clock ↔
      w.backing.Holds host ∧ ¬ terms.Expired host.updatedAt w.clock := by
  rw [live, List.mem_filter, decide_eq_true_eq, h.mem_iff, h.clock]

theorem order_live (h : w.Snaps snapshot after) :
    (live terms snapshot after.clock).Pairwise Host.Before :=
  h.order.sublist List.filter_sublist

theorem holds_weigh (h : w.Snaps snapshot after) (hworks : w.backing.Works) (host : Host) :
    ((weigh terms snapshot).run after).2.backing.Holds host ↔
      host ∈ live terms snapshot after.clock := by
  rw [(evicts_weigh terms snapshot h.sheds.sound).stays, h.calm, Disturbance.meetings_nil,
    h.mem_live, h.sheds.works, and_iff_right hworks, h.holds_iff]
  refine and_congr_right fun hheld => not_congr ?_
  simp only [List.mem_map, exists_exists_and_eq_and, expired, List.mem_filter, decide_eq_true_eq,
    h.clock, h.mem_iff]
  constructor
  · rintro ⟨other, ⟨hother, hexpired⟩, hid, -⟩
    rwa [h.sheds.sound.eq_of_id ((h.holds_iff host).mpr hheld) ((h.holds_iff other).mpr hother) hid]
  · intro hexpired
    exact ⟨host, ⟨hheld, hexpired⟩, rfl, Disturbance.clears_none _⟩

/-- Without expired hosts nothing is done after the snapshot. -/
theorem run_fresh (h : w.Snaps snapshot after)
    (hfresh : ∀ host, w.backing.Holds host → ¬ terms.Expired host.updatedAt w.clock) :
    ((weigh terms snapshot).run after).1 = .ok snapshot ∧
      ((weigh terms snapshot).run after).2 = after.readClock.2 := by
  have hnone : ∀ host ∈ snapshot, ¬ terms.Expired host.updatedAt after.clock := by
    intro host hmem
    rw [h.clock]
    exact hfresh host ((h.mem_iff host).mp hmem)
  obtain ⟨hreply, hsame, -⟩ := run_weigh terms snapshot after
  refine ⟨hreply.trans (congrArg _ (List.filter_eq_self.mpr fun host hmem => ?_)), hsame ?_⟩
  · exact decide_eq_true (hnone host hmem)
  · refine List.filter_eq_nil_iff.mpr fun host hmem => ?_
    rw [decide_eq_true_eq]
    exact hnone host hmem

end World.Snaps

namespace Directory

variable (terms : Terms)

/-- What a listing does that nothing disturbs, and what one does after it. -/
structure Exact (w : World) (listed : List Host) : Prop where
  answer : ((listLive terms).run w).1 = .ok listed
  mem_iff : ∀ h, h ∈ listed ↔ w.backing.Holds h ∧
    (w.clock.since h.updatedAt).nanoseconds < terms.lifetime.nanoseconds
  order : listed.Pairwise Host.Before
  /-- A store of either kind with the same hosts, however arranged, gives the same answer. -/
  alike : ∀ other : World, other.backing.Sound → other.Calm → other.clock = w.clock →
    (∀ h, other.backing.Holds h ↔ w.backing.Holds h) → ((listLive terms).run other).1 = .ok listed
  left : ∀ h, ((listLive terms).run w).2.backing.Holds h ↔ h ∈ listed
  settings : ((listLive terms).run w).2.backing.settings = w.backing.settings
  /-- The codes of evicted hosts are free: an insert with such a code succeeds, unless the id that
  is drawn for it is taken. -/
  freed : ∀ h, w.backing.Holds h → h ∉ listed → ∀ (candidate : Candidate) (draws : Draws),
    candidate.code = h.code → (∀ g ∈ listed, g.id ≠ draws.draw.1.simple) →
      (((listLive terms).run w).2.backing.run draws (.insert candidate)).1
        = .answered (some (candidate.host draws.draw.1.simple))
  /-- A second listing at the same time has the same answer, deletes nothing and changes nothing. -/
  again : ∀ second : World, second.backing = ((listLive terms).run w).2.backing →
    second.disturbances = [] → second.clock = w.clock →
      ((listLive terms).run second).1 = .ok listed ∧
      ((listLive terms).run second).2.calls = .list :: second.calls ∧
      ((listLive terms).run second).2.backing.content = second.backing.content

variable {w : World}

theorem listLive_calm (hw : w.backing.Sound) (hcalm : w.Calm) :
    ∃ listed gone, ((listLive terms).run w).1 = .ok listed ∧ listed.Pairwise Host.Before ∧
      (∀ h, h ∈ listed ↔ w.backing.Holds h ∧ ¬ terms.Expired h.updatedAt w.clock) ∧
      w.backing.Sheds gone ((listLive terms).run w).2.backing ∧
      ∀ h, ((listLive terms).run w).2.backing.Holds h ↔ h ∈ listed := by
  obtain ⟨snapshot, after, hsnaps, hrun⟩ := listLive_snaps terms hcalm hw
  obtain ⟨gone, hsheds, -⟩ := (evicts_weigh terms snapshot hsnaps.sheds.sound).told
  rw [hrun]
  exact ⟨_, _, (run_weigh terms snapshot after).1, hsnaps.order_live terms, hsnaps.mem_live terms,
    hsnaps.sheds.trans hsheds, hsnaps.holds_weigh terms hcalm.works⟩

/-- Where no host is expired, a listing takes a snapshot and does nothing else. -/
theorem listLive_fresh (hw : w.backing.Sound) (hcalm : w.Calm)
    (hfresh : ∀ h, w.backing.Holds h → ¬ terms.Expired h.updatedAt w.clock) :
    ∃ listed, ((listLive terms).run w).1 = .ok listed ∧ listed.Pairwise Host.Before ∧
      (∀ h, h ∈ listed ↔ w.backing.Holds h) ∧
      ((listLive terms).run w).2.calls = .list :: w.calls ∧
      ((listLive terms).run w).2.backing.content = w.backing.content := by
  obtain ⟨snapshot, after, hsnaps, hrun⟩ := listLive_snaps terms hcalm hw
  obtain ⟨hreply, hworld⟩ := hsnaps.run_fresh terms hfresh
  rw [hrun, hworld]
  exact ⟨snapshot, hreply, hsnaps.order, hsnaps.mem_iff, hsnaps.calls, hsnaps.content⟩

/-- Over whatever can come to be stored, a listing that nothing disturbs is exact, and a second one
changes nothing. -/
theorem listLive_exact (hreach : w.backing.Reachable) (hcalm : w.Calm) :
    ∃ listed, Exact terms w listed := by
  obtain ⟨listed, gone, hanswer, horder, hmem, hsheds, hheld⟩ :=
    listLive_calm terms hreach.sound hcalm
  refine ⟨listed, hanswer, fun h => ?_, horder, ?_, hheld, hsheds.settings, ?_, ?_⟩
  · rw [hmem, Terms.Expired, Int.not_le]
  · intro other hsound hother hclock hsame
    obtain ⟨seen, -, hsees, hseen, hmem', -⟩ := listLive_calm terms hsound hother
    rw [hsees]
    refine congrArg _ (Host.eq_of_before hseen horder fun h => ?_)
    rw [hmem', hmem, hsame, hclock]
  · intro h hh hgone candidate draws hcode hid
    have hshed : h ∈ gone := (hsheds.mem_iff h).mpr ⟨hh, fun hleft => hgone ((hheld h).mp hleft)⟩
    exact hsheds.insert_freed hreach.sound hcalm.works hshed hcode fun g hg =>
      hid g ((hheld g).mp hg)
  · intro second hb hd hclock
    have hcalm' : second.Calm := ⟨hd, hb ▸ hsheds.works.mpr hcalm.works⟩
    have hfresh : ∀ h, second.backing.Holds h → ¬ terms.Expired h.updatedAt second.clock := by
      intro h hh
      rw [hb, hheld, hmem] at hh
      rw [hclock]
      exact hh.2
    obtain ⟨seen, hsees, hseen, hmem', hrest⟩ :=
      listLive_fresh terms (hb ▸ hsheds.sound) hcalm' hfresh
    refine ⟨hsees.trans (congrArg _ (Host.eq_of_before hseen horder fun h => ?_)), hrest⟩
    rw [hmem', hb, hheld]

/-! ### A database in which one host has expired -/

def older : Candidate := ⟨"10.0.0.1", .last 65535, "AAAAAA", minuteStart⟩

def younger : Candidate := ⟨"10.0.0.2", .last 65535, "BBBBBB", minuteEnd⟩

def mixedWorld : World where
  clock := minuteEnd
  backing := (((Backing.database { database := {} } false).run {} (.insert older)).2.1.run
    { numbered := 1 } (.insert younger)).2.1

theorem reachable_mixedWorld : mixedWorld.backing.Reachable := by
  have holder : Command.Storable (.insert older) := show minuteStart.Storable by decide
  have hyounger : Command.Storable (.insert younger) := show minuteEnd.Storable by decide
  exact (Backing.Reachable.database.run {} holder).run { numbered := 1 } hyounger

theorem listLive_exact_mixed : mixedWorld.backing.Reachable ∧ mixedWorld.Calm ∧
    mixedWorld.backing.Holds (older.host "00000000000040008000000000000001") ∧
    ∃ listed, Exact minuteTerms mixedWorld listed ∧
      older.host "00000000000040008000000000000001" ∉ listed ∧
      younger.host "00000000000040008000000000000002" ∈ listed := by
  have hcalm : mixedWorld.Calm := ⟨rfl, rfl, rfl⟩
  obtain ⟨listed, hexact⟩ := listLive_exact minuteTerms reachable_mixedWorld hcalm
  refine ⟨reachable_mixedWorld, hcalm, rfl, listed, hexact, ?_, ?_⟩
  · rw [hexact.mem_iff]
    exact fun hlive => absurd hlive.2 (by decide)
  · rw [hexact.mem_iff]
    exact ⟨rfl, by decide⟩

end Directory
end Rendezvous
