import Rendezvous.Proofs.Scheduling
import Rendezvous.Proofs.Stock

/-!
# How evictions end

A listing takes a snapshot, answers with the live hosts of it, and evicts the others side by side,
each by a call with a deadline of its own. `Disturbance.meetings` is what those calls meet. Whatever
that is, the answer is the same, and a host is removed exactly if the call for it got through:
`Directory.listLive_evicts`. In between `World.Spares` tells which hosts there will be in the end,
and it is the same all along, in whatever order the calls end.
-/

namespace Rendezvous

/-! ## What is removed -/

namespace Backing

def settings : Backing → Option Json ⊕ Option (Option String)
  | .memory store => .inl store.settings
  | .database worker _ => .inr worker.database.settings

theorem settings_run (b : Backing) (command : Command) (h : ∀ patch, command ≠ .merge patch)
    (draws : Draws) : (b.run draws command).2.1.settings = b.settings := by
  match b with
  | .memory store => exact congrArg Sum.inl (Memory.settings_run h store draws)
  | .database worker false =>
    simp only [Backing.run, Worker.perform]
    split
    · rfl
    · exact congrArg Sum.inr (Database.settings_run h worker.database draws)
  | .database worker true =>
    simp only [Backing.run, Worker.submit]
    cases worker.stopped <;> rfl

/-- The hosts `gone` are removed, and nothing else is changed. -/
structure Sheds (b : Backing) (gone : List Host) (b' : Backing) : Prop where
  sound : b'.Sound
  works : b'.Works ↔ b.Works
  settings : b'.settings = b.settings
  nodup : gone.Nodup
  held : ∀ h ∈ gone, b.Holds h
  left : ∀ h, b'.Holds h ↔ b.Holds h ∧ h ∉ gone

variable {a b c : Backing} {gone more : List Host}

namespace Sheds

theorem same (sound : c.Sound) (works : c.Works ↔ b.Works) (settings : c.settings = b.settings)
    (holds : ∀ h, c.Holds h ↔ b.Holds h) : b.Sheds [] c where
  sound := sound
  works := works
  settings := settings
  nodup := .nil
  held h hmem := by cases hmem
  left h := (holds h).trans (and_iff_left List.not_mem_nil).symm

theorem refl (hb : b.Sound) : b.Sheds [] b := .same hb .rfl rfl fun _ => .rfl

theorem trans (hab : a.Sheds gone b) (hbc : b.Sheds more c) : a.Sheds (gone ++ more) c where
  sound := hbc.sound
  works := hbc.works.trans hab.works
  settings := hbc.settings.trans hab.settings
  nodup := by
    refine List.nodup_append.mpr ⟨hab.nodup, hbc.nodup, ?_⟩
    rintro x hx _ hy rfl
    exact ((hab.left x).mp (hbc.held x hy)).2 hx
  held h hmem := by
    rcases List.mem_append.mp hmem with hgone | hmore
    · exact hab.held h hgone
    · exact ((hab.left h).mp (hbc.held h hmore)).1
  left h := by rw [hbc.left, hab.left, List.mem_append, not_or, and_assoc]

theorem mem_iff (h : b.Sheds gone c) (host : Host) :
    host ∈ gone ↔ b.Holds host ∧ ¬ c.Holds host := by
  rw [h.left]
  constructor
  · exact fun hmem => ⟨h.held host hmem, fun hleft => hleft.2 hmem⟩
  · rintro ⟨hheld, hleft⟩
    exact not_not.mp fun hmem => hleft ⟨hheld, hmem⟩

/-- One host is removed, and its id tells it from all others. -/
theorem one (hb : b.Sound) (sound : c.Sound) (works : c.Works ↔ b.Works)
    (settings : c.settings = b.settings) {host : Host} (before : b.Holds host)
    (after : ∀ h, c.Holds h ↔ b.Holds h ∧ h.id ≠ host.id) : b.Sheds [host] c where
  sound := sound
  works := works
  settings := settings
  nodup := List.nodup_singleton host
  held h hmem := by rwa [List.mem_singleton.mp hmem]
  left h := by
    rw [after, List.mem_singleton]
    refine and_congr_right fun hheld => not_congr ⟨fun hid => ?_, congrArg _⟩
    exact hb.eq_of_id hheld before hid

end Sheds

/-- A call that deletes by id removes the host with the id, if the backing works. -/
theorem Sound.sheds_deleteById (hb : b.Sound) (draws : Draws) (host : Host) :
    ∃ found : Option Host, b.Sheds found.toList (b.run draws (.deleteById host.id)).2.1 ∧
      Eviction.removed ((b.run draws (.deleteById host.id)).1 : Eviction host) = found.isSome ∧
      ∀ h, found = some h ↔ b.Holds h ∧ b.Works ∧ h.id = host.id := by
  have hserves := hb.serves (.deleteById host.id) trivial draws
  have hsettings := b.settings_run (.deleteById host.id) (fun _ => nofun) draws
  generalize (b.run draws (.deleteById host.id)).1 = outcome at *
  generalize (b.run draws (.deleteById host.id)).2.1 = b' at *
  cases hserves with
  | @answers found _ fits makes sound worked works =>
    have hfits : ∀ h, found = some h ↔ b.Holds h ∧ b.Works ∧ h.id = host.id := fun h =>
      (fits h).trans (and_congr_right fun _ => (and_iff_right worked).symm)
    have hworks : b'.Works ↔ b.Works := iff_of_true works worked
    refine ⟨found, ?_, Eviction.removed_answered found, hfits⟩
    cases found with
    | none =>
      cases makes with
      | still same => exact .same sound hworks hsettings same
    | some gone =>
      cases makes with
      | removed before after => exact .one hb sound hworks hsettings before after
  | misses miss same sound idle works =>
    refine ⟨none, .same sound works hsettings fun h => by rw [same], ?_, fun h => ?_⟩
    · cases outcome with
      | answered answer => cases miss
      | failed fault => rfl
      | timedOut => rfl
    · refine iff_of_false nofun ?_
      rintro ⟨_, hworks, _⟩
      exact idle hworks trivial

end Backing

/-! ## Evictions under way -/

/-- The id that the eviction will remove, if it is under way and will get through. -/
def Slot.target? : Slot → Option String
  | .waiting host flight => if flight.treatment = some .pass then some host.id else none
  | .ended _ => none

namespace World

variable {u v w : World} {limit : Nat} {slots slots' : List Slot}

/-- The host is stored, and will be when all evictions are over. -/
def Spares (w : World) (slots : List Slot) (h : Host) : Prop :=
  w.backing.Holds h ∧ ¬ (w.backing.Works ∧ h.id ∈ slots.filterMap Slot.target?)

theorem spares_cons (slot : Slot) (h : Host) : w.Spares (slot :: slots) h ↔
    w.Spares slots h ∧ ¬ (w.backing.Works ∧ slot.target? = some h.id) := by
  have hmem : h.id ∈ (slot :: slots).filterMap Slot.target? ↔
      slot.target? = some h.id ∨ h.id ∈ slots.filterMap Slot.target? := by
    simp only [List.mem_filterMap, List.mem_cons, exists_eq_or_imp]
  rw [Spares, Spares, hmem]
  tauto

theorem spares_over (ho : slots.all Slot.isOver = true) (h : Host) :
    w.Spares slots h ↔ w.backing.Holds h := by
  have hnil : slots.filterMap Slot.target? = [] := by
    refine List.filterMap_eq_nil_iff.mpr fun slot hslot => ?_
    cases slot with
    | waiting host flight => cases List.all_eq_true.mp ho _ hslot
    | ended removed => rfl
  rw [Spares, hnil]
  exact and_iff_left fun hmem => List.not_mem_nil hmem.2

/-- Some evictions have ended since: as many hosts are gone as they say to have removed, and which
ones there will be in the end is as it was. -/
structure Ends (w : World) (slots : List Slot) (w' : World) (slots' : List Slot) : Prop where
  sheds : ∃ gone, w.backing.Sheds gone w'.backing ∧
    slots'.countP Slot.removed = slots.countP Slot.removed + gone.length
  spares : ∀ h, w'.Spares slots' h ↔ w.Spares slots h

namespace Ends

theorem refl (hw : w.backing.Sound) : w.Ends slots w slots :=
  ⟨⟨[], .refl hw, rfl⟩, fun _ => .rfl⟩

theorem trans {slots'' : List Slot} (huv : u.Ends slots v slots')
    (hvw : v.Ends slots' w slots'') : u.Ends slots w slots'' := by
  obtain ⟨gone, hgone, hcount⟩ := huv.sheds
  obtain ⟨more, hmore, hcount'⟩ := hvw.sheds
  refine ⟨⟨gone ++ more, hgone.trans hmore, ?_⟩, fun h => (hvw.spares h).trans (huv.spares h)⟩
  rw [hcount', hcount, List.length_append, Nat.add_assoc]

theorem sound (h : v.Ends slots w slots') : w.backing.Sound := by
  obtain ⟨_, hsheds, _⟩ := h.sheds
  exact hsheds.sound

theorem cons (h : v.Ends slots w slots') (slot : Slot) :
    v.Ends (slot :: slots) w (slot :: slots') := by
  obtain ⟨gone, hgone, hcount⟩ := h.sheds
  refine ⟨⟨gone, hgone, ?_⟩, fun host => ?_⟩
  · rw [List.countP_cons, List.countP_cons, hcount]
    omega
  · rw [spares_cons, spares_cons, h.spares, hgone.works]

end Ends

theorem backing_waitUntil (w : World) (time : Nat) : (w.waitUntil time).backing = w.backing := by
  unfold World.waitUntil
  split <;> rfl

theorem backing_landEviction (host : Host) (treatment : Option Treatment) :
    (w.landEviction limit host treatment).2.backing
      = (w.land (.deleteById host.id) treatment).2.backing := by
  simp only [World.landEviction]
  cases Eviction.event? limit (w.land (.deleteById host.id) treatment).1 <;> rfl

/-- The end of an eviction that removes at most the host with its id, and only if it gets through
to a store that works. -/
theorem landEviction_sheds (hw : w.backing.Sound) (limit : Nat) (host : Host)
    (treatment : Option Treatment) :
    ∃ found : Option Host,
      w.backing.Sheds found.toList (w.landEviction limit host treatment).2.backing ∧
      (w.landEviction limit host treatment).1 = found.isSome ∧
      ∀ h, found = some h ↔
        w.backing.Holds h ∧ w.backing.Works ∧ treatment = some .pass ∧ h.id = host.id := by
  have hidle : ∀ h : Host, treatment ≠ some .pass → (none = some h ↔
      w.backing.Holds h ∧ w.backing.Works ∧ treatment = some .pass ∧ h.id = host.id) :=
    fun h hne => iff_of_false nofun fun hh => hne hh.2.2.1
  rw [backing_landEviction]
  match treatment with
  | none => exact ⟨none, .refl hw, rfl, fun h => hidle h nofun⟩
  | some (.fail messages) => exact ⟨none, .refl hw, rfl, fun h => hidle h nofun⟩
  | some .empty => exact ⟨none, .refl hw, rfl, fun h => hidle h nofun⟩
  | some .pass =>
    obtain ⟨found, hsheds, hremoved, hfound⟩ := hw.sheds_deleteById w.draws host
    refine ⟨found, hsheds, hremoved, fun h => (hfound h).trans ?_⟩
    rw [and_iff_right rfl]

theorem ends_landEviction (hw : w.backing.Sound) (limit : Nat) (host : Host) (flight : Flight)
    (slots : List Slot) :
    w.Ends (.waiting host flight :: slots) (w.landEviction limit host flight.treatment).2
      (.ended (w.landEviction limit host flight.treatment).1 :: slots) := by
  obtain ⟨found, hsheds, hremoved, hfound⟩ := landEviction_sheds hw limit host flight.treatment
  refine ⟨⟨found.toList, hsheds, ?_⟩, fun h => ?_⟩
  · rw [hremoved]
    cases found with
    | none => rfl
    | some gone => exact List.countP_cons_of_pos rfl
  · -- The slot that waits counts the host out; once it has ended, the store is without it.
    have htarget : (Slot.waiting host flight).target? = some h.id ↔
        flight.treatment = some .pass ∧ h.id = host.id := by
      rw [Slot.target?, Option.ite_none_right_eq_some, Option.some.injEq, eq_comm (a := h.id)]
    rw [spares_cons, spares_cons, Spares, Spares, hsheds.left, hsheds.works, Option.mem_toList,
      hfound, htarget]
    simp only [Slot.target?, reduceCtorEq, and_false, not_false_eq_true, and_true]
    tauto

theorem ends_landDue (hw : w.backing.Sound) (limit : Nat) (slots : List Slot) :
    w.Ends slots (w.landDue limit slots).2 (w.landDue limit slots).1 := by
  -- The world changes with each slot that ends, so the claim is for every world.
  induction slots generalizing w with
  | nil => exact .refl hw
  | cons slot slots ih =>
    cases slot with
    | ended removed => exact (ih hw).cons _
    | waiting host flight =>
      simp only [World.landDue]
      split
      · have hfirst := ends_landEviction hw limit host flight slots
        exact hfirst.trans ((ih hfirst.sound).cons _)
      · exact (ih hw).cons _

theorem ends_landAt (hw : w.backing.Sound) (limit : Nat) (slots : List Slot) (times : List Nat) :
    w.Ends slots (w.landAt limit slots times).2 (w.landAt limit slots times).1 := by
  induction times generalizing w slots with
  | nil => exact .refl hw
  | cons time times ih =>
    have hwait : w.Ends slots (w.waitUntil time) slots := by
      have hb := backing_waitUntil w time
      refine ⟨⟨[], ?_, rfl⟩, fun h => by rw [Spares, Spares, hb]⟩
      rw [hb]
      exact .refl hw
    have hdue := ends_landDue hwait.sound limit slots
    exact (hwait.trans hdue).trans (ih hdue.sound _)

end World

/-! ## What evictions meet -/

namespace Disturbance

/-- The calls that evict hosts, started one after another, each with the disturbance it meets. -/
def meetings : List Host → List Disturbance → List (Host × Option Disturbance)
  | [], _ => []
  | host :: rest, disturbances =>
    let (met, disturbances) := meet (.deleteById host.id) disturbances
    (host, met) :: meetings rest disturbances

/-- A call that meets this ends within its limit, and gets through to the store. -/
def Clears (limit : Nat) (met : Option Disturbance) : Prop :=
  ∀ d ∈ met, d.delay ≤ limit ∧ d.treatment = .pass

instance (limit : Nat) (met : Option Disturbance) : Decidable (Clears limit met) :=
  inferInstanceAs (Decidable (∀ d ∈ met, _))

theorem map_fst_meetings (hosts : List Host) (disturbances : List Disturbance) :
    (meetings hosts disturbances).map (·.1) = hosts := by
  induction hosts generalizing disturbances with
  | nil => rfl
  | cons host rest ih => exact congrArg (host :: ·) (ih _)

theorem meetings_nil (hosts : List Host) : meetings hosts [] = hosts.map (·, none) := by
  induction hosts with
  | nil => rfl
  | cons host rest ih => exact congrArg ((host, none) :: ·) ih

theorem clears_none (limit : Nat) : Clears limit none := fun d h => by cases h

/-- A disturbance of one eviction: how long it takes, and how it is treated then. -/
def once (fate : Host × Nat × Treatment) : Disturbance where
  operation := .deleteById
  subject := some fate.1.id
  uses := some 1
  delay := fate.2.1
  treatment := fate.2.2

/-- Disturbances that are used up are passed over. -/
theorem meet_past {past rest : List Disturbance} (hpast : ∀ d ∈ past, d.uses = some 0)
    {d : Disturbance} {command : Command} (hd : d.concerns command = true) :
    meet command (past ++ d :: rest) = (some d, past ++ d.used :: rest) := by
  induction past with
  | nil => exact if_pos hd
  | cons p past ih =>
    rw [List.forall_mem_cons] at hpast
    have hp : ¬ p.concerns command = true := by simp [concerns, hpast.1]
    rw [List.cons_append, meet, if_neg hp, ih hpast.2]
    rfl

/-- There are disturbances for every way in which evictions can be slow and be treated. -/
theorem meetings_once (fates : List (Host × Nat × Treatment)) :
    meetings (fates.map (·.1)) (fates.map once)
      = fates.map fun fate => (fate.1, some (once fate)) := by
  suffices hall : ∀ past : List Disturbance, (∀ d ∈ past, d.uses = some 0) →
      meetings (fates.map (·.1)) (past ++ fates.map once)
        = fates.map fun fate => (fate.1, some (once fate)) from hall [] fun d hd => by cases hd
  induction fates with
  | nil => exact fun _ _ => rfl
  | cons fate fates ih =>
    intro past hpast
    have hmeet : meet (.deleteById fate.1.id) (past ++ once fate :: fates.map once)
        = (some (once fate), (past ++ [(once fate).used]) ++ fates.map once) := by
      rw [meet_past hpast (by simp [concerns, once, Command.operation, Command.subject]),
        List.append_cons]
    have hused : ∀ d ∈ past ++ [(once fate).used], d.uses = some 0 := by
      intro d hd
      rcases List.mem_append.mp hd with hd | hd
      · exact hpast d hd
      · rw [List.mem_singleton.mp hd]
        rfl
    simp only [List.map_cons, meetings, hmeet, ih _ hused]

end Disturbance

namespace World

variable {w : World}

open Disturbance (Clears meetings)

theorem treatment_launch (w : World) (command : Command) (limit : Nat) :
    (w.launch command limit).1.treatment = some .pass ↔
      Clears limit (Disturbance.meet command w.disturbances).1 := by
  simp only [World.launch, Clears]
  cases (Disturbance.meet command w.disturbances).1 with
  | none => simp
  | some d =>
    by_cases hlimit : d.delay ≤ limit
    · simp [hlimit]
    · simp [hlimit]

theorem launch_keeps (w : World) (command : Command) (limit : Nat) :
    (w.launch command limit).2.backing = w.backing ∧
      (w.launch command limit).2.disturbances
        = (Disturbance.meet command w.disturbances).2 := by
  simp only [World.launch]
  split <;> exact ⟨rfl, rfl⟩

theorem launchAll_spec (w : World) (limit : Nat) (hosts : List Host) :
    (w.launchAll limit hosts).2.backing = w.backing ∧
      (w.launchAll limit hosts).1.countP Slot.removed = 0 ∧
      ∀ id, id ∈ (w.launchAll limit hosts).1.filterMap Slot.target? ↔
        ∃ call ∈ meetings hosts w.disturbances, id = call.1.id ∧ Clears limit call.2 := by
  induction hosts generalizing w with
  | nil => exact ⟨rfl, rfl, fun id => by simp [launchAll, meetings]⟩
  | cons host rest ih =>
    obtain ⟨hb, hd⟩ := w.launch_keeps (.deleteById host.id) limit
    obtain ⟨hbacking, hcount, htargets⟩ := ih (w.launch (.deleteById host.id) limit).2
    refine ⟨hbacking.trans hb, hcount, fun id => ?_⟩
    have hfirst : (Slot.waiting host (w.launch (.deleteById host.id) limit).1).target? = some id ↔
        id = host.id ∧ Clears limit (Disturbance.meet (.deleteById host.id) w.disturbances).1 := by
      rw [Slot.target?, Option.ite_none_right_eq_some, treatment_launch, Option.some.injEq,
        and_comm, eq_comm]
    simp only [launchAll, meetings, List.mem_filterMap, List.mem_cons, exists_eq_or_imp, hfirst]
    rw [← List.mem_filterMap, htargets, hd]

/-- How evictions side by side end: the hosts whose calls got through are gone, and as many calls
say that they removed one. -/
theorem evict_spec (hw : w.backing.Sound) (hosts : List Host) (limit : Nat) :
    ∃ gone, w.backing.Sheds gone (w.evict hosts limit).2.backing ∧
      (w.evict hosts limit).1.count true = gone.length ∧
      ∀ h, (w.evict hosts limit).2.backing.Holds h ↔ w.backing.Holds h ∧
        ¬ (w.backing.Works ∧
          ∃ call ∈ meetings hosts w.disturbances, h.id = call.1.id ∧ Clears limit call.2) := by
  obtain ⟨hb, hcount, htargets⟩ := w.launchAll_spec limit hosts
  simp only [World.evict]
  generalize w.launchAll limit hosts = launched at *
  obtain ⟨slots, u⟩ := launched
  dsimp only at *
  have hends := ends_landAt (hb ▸ hw) limit slots ((slots.filterMap Slot.wake?).mergeSort)
  have hover : (u.landAt limit slots ((slots.filterMap Slot.wake?).mergeSort)).1.all Slot.isOver :=
    isOver_landAt fun t ht => List.mem_mergeSort.mpr ht
  obtain ⟨gone, hsheds, hremoved⟩ := hends.sheds
  refine ⟨gone, hb ▸ hsheds, ?_, fun h => ?_⟩
  · rw [hcount, Nat.zero_add] at hremoved
    rw [List.count, List.countP_map, ← hremoved]
    exact List.countP_congr fun slot _ => by simp
  · rw [← spares_over hover, hends.spares, Spares, htargets, hb]

end World

/-! ## Listings -/

/-- The expired hosts are evicted, and nothing else happens to those of the first world. -/
structure World.Evicts (w : World) (limit : Nat) (expired : List Host) (w' : World) : Prop where
  /-- A host stays, unless a call for its id got through to a store that works. -/
  stays : ∀ h, w'.backing.Holds h ↔ w.backing.Holds h ∧ ¬ (w.backing.Works ∧
    ∃ call ∈ Disturbance.meetings expired w.disturbances,
      h.id = call.1.id ∧ Disturbance.Clears limit call.2)
  /-- If there is one call for each id, that call alone decides. -/
  own : (expired.map (·.id)).Nodup → ∀ call ∈ Disturbance.meetings expired w.disturbances,
    ∀ h, w.backing.Holds h → h.id = call.1.id →
      (¬ w'.backing.Holds h ↔ w.backing.Works ∧ Disturbance.Clears limit call.2)
  /-- The log is told how many hosts are gone. -/
  told : ∃ gone, w.backing.Sheds gone w'.backing ∧
    (expired ≠ [] → w'.journal.head? = some (.swept gone.length expired.length))

theorem World.Evicts.of_stays {w w' : World} {limit : Nat} {expired gone : List Host}
    (hsheds : w.backing.Sheds gone w'.backing)
    (htold : expired ≠ [] → w'.journal.head? = some (.swept gone.length expired.length))
    (hstays : ∀ h, w'.backing.Holds h ↔ w.backing.Holds h ∧ ¬ (w.backing.Works ∧
      ∃ call ∈ Disturbance.meetings expired w.disturbances,
        h.id = call.1.id ∧ Disturbance.Clears limit call.2)) :
    w.Evicts limit expired w' := by
  refine ⟨hstays, fun hn call hcall h hh hid => ?_, gone, hsheds, htold⟩
  have hids : ((Disturbance.meetings expired w.disturbances).map (·.1.id)).Nodup := by
    rw [← Disturbance.map_fst_meetings expired w.disturbances, List.map_map] at hn
    exact hn
  rw [hstays, not_and, not_not]
  constructor
  · intro hgone
    obtain ⟨hworks, other, hother, hsame, hclears⟩ := hgone hh
    obtain rfl := List.inj_on_of_nodup_map hids hother hcall (hsame.symm.trans hid)
    exact ⟨hworks, hclears⟩
  · rintro ⟨hworks, hclears⟩ _
    exact ⟨hworks, call, hcall, hid, hclears⟩

namespace Directory

open Attempt

variable (terms : Terms)

/-- What a listing does with its snapshot. -/
def weigh (snapshot : List Host) : Attempt (List Host) :=
  .readClock fun now =>
    let (live, expired) := snapshot.partition fun h => Expiry.isLive terms.lifetime h.updatedAt now
    if expired.isEmpty then .done (.ok live)
    else .evict expired terms.evictionLimit fun removed =>
      .log (.swept (removed.count true) expired.length) (.done (.ok live))

theorem listLive_eq_ask : listLive terms = ask terms .list (weigh terms) := rfl

def expired (snapshot : List Host) (now : Instant) : List Host :=
  snapshot.filter fun h => terms.Expired h.updatedAt now

def live (snapshot : List Host) (now : Instant) : List Host :=
  snapshot.filter fun h => ¬ terms.Expired h.updatedAt now

/-- The answer is decided before anything is evicted. -/
theorem run_weigh (snapshot : List Host) (w : World) :
    ((weigh terms snapshot).run w).1 = .ok (live terms snapshot w.clock) ∧
      (expired terms snapshot w.clock = [] →
        ((weigh terms snapshot).run w).2 = w.readClock.2) ∧
      (expired terms snapshot w.clock ≠ [] → ((weigh terms snapshot).run w).2 =
        let swept := w.readClock.2.evict (expired terms snapshot w.clock) terms.evictionLimit
        swept.2.note (.swept (swept.1.count true) (expired terms snapshot w.clock).length)) := by
  have hparts : snapshot.partition (fun h => Expiry.isLive terms.lifetime h.updatedAt w.clock)
      = (live terms snapshot w.clock, expired terms snapshot w.clock) := by
    rw [List.partition_eq_filter_filter]
    refine Prod.ext (List.filter_congr fun h _ => ?_) (List.filter_congr fun h _ => ?_)
    · rw [Bool.eq_iff_iff, Terms.isLive_iff, decide_eq_true_eq]
    · rw [Bool.eq_iff_iff, Function.comp_apply, Bool.not_eq_true', ← Bool.not_eq_true,
        Terms.isLive_iff, not_not, decide_eq_true_eq]
  simp only [weigh, Interaction.run, World.readClock, hparts]
  cases hexpired : expired terms snapshot w.clock with
  | nil => exact ⟨rfl, fun _ => rfl, fun hne => (hne rfl).elim⟩
  | cons host rest => exact ⟨rfl, fun he => (List.cons_ne_nil _ _ he).elim, fun _ => rfl⟩

theorem evicts_weigh (snapshot : List Host) {w : World} (hw : w.backing.Sound) :
    w.Evicts terms.evictionLimit (expired terms snapshot w.clock)
      ((weigh terms snapshot).run w).2 := by
  obtain ⟨-, hnone, hsome⟩ := run_weigh terms snapshot w
  by_cases hexpired : expired terms snapshot w.clock = []
  · rw [hnone hexpired, hexpired]
    exact .of_stays (.refl hw) (fun hne => (hne rfl).elim) fun h =>
      (and_iff_left (by simp [Disturbance.meetings])).symm
  · obtain ⟨gone, hsheds, hcount, hstays⟩ := World.evict_spec (w := w.readClock.2) hw
      (expired terms snapshot w.clock) terms.evictionLimit
    rw [hsome hexpired]
    exact .of_stays hsheds (fun _ => congrArg (some <| Event.swept · _) hcount) hstays

/-- The answer of a listing is the live part of its snapshot, whatever its evictions meet, and there
are disturbances for all that they can meet. A host is evicted exactly if its own call gets through,
and the log is told how many were. -/
theorem listLive_evicts : listLive terms = ask terms .list (weigh terms) ∧
    (∀ fates : List (Host × Nat × Treatment),
      Disturbance.meetings (fates.map (·.1)) (fates.map Disturbance.once)
        = fates.map fun fate => (fate.1, some (Disturbance.once fate))) ∧
    ∀ snapshot w,
      ((weigh terms snapshot).run w).1 = .ok (live terms snapshot w.clock) ∧
      (∀ w' : World, w'.clock = w.clock →
        ((weigh terms snapshot).run w').1 = ((weigh terms snapshot).run w).1) ∧
      (w.backing.Sound → w.Evicts terms.evictionLimit (expired terms snapshot w.clock)
        ((weigh terms snapshot).run w).2) := by
  refine ⟨rfl, Disturbance.meetings_once, fun snapshot w => ?_⟩
  refine ⟨(run_weigh terms snapshot w).1, fun w' hclock => ?_, evicts_weigh terms snapshot⟩
  rw [(run_weigh terms snapshot w').1, (run_weigh terms snapshot w).1, hclock]

/-! ### Evictions that go different ways -/

def guest (name : String) (updatedAt : Instant) : Host :=
  ⟨name, "10.0.0.1", .last 65535, name, minuteStart, updatedAt⟩

/-- The first five are expired a minute later. -/
def guests : List Host :=
  [guest "prompt" minuteStart, guest "slow" minuteStart, guest "late" minuteStart,
    guest "broken" minuteStart, guest "gone" minuteStart, guest "fresh" minuteEnd]

def guestWorker : Worker := { database := { hosts := some (guests.map Row.ofHost) } }

theorem stocks_guestWorker : guestWorker.Stocks guests where
  database := ⟨⟨rfl, by decide⟩, by decide, by decide⟩
  left _ _ h := by cases h

/-- All evictions but that of the first host are disturbed. -/
def guestWorld : World where
  clock := minuteEnd
  backing := .database guestWorker false
  disturbances := [(guest "slow" minuteStart, 250, .pass), (guest "late" minuteStart, 251, .pass),
    (guest "broken" minuteStart, 0, .fail ["disk full"]),
    (guest "gone" minuteStart, 10, .empty)].map Disturbance.once

def stayed : List Host :=
  [guest "late" minuteStart, guest "broken" minuteStart, guest "gone" minuteStart,
    guest "fresh" minuteEnd]

theorem stayed_eq_filter : stayed = guests.filter fun h => ¬ ∃ call ∈
    Disturbance.meetings (expired minuteTerms guests minuteEnd) guestWorld.disturbances,
    h.id = call.1.id ∧ Disturbance.Clears 250 call.2 := by decide

theorem listLive_evicts_guests : guestWorld.backing.Sound ∧
    ((weigh minuteTerms guests).run guestWorld).1 = .ok [guest "fresh" minuteEnd] ∧
    (∀ h, ((weigh minuteTerms guests).run guestWorld).2.backing.Holds h ↔ h ∈ stayed) ∧
    ((weigh minuteTerms guests).run guestWorld).2.journal.head? = some (.swept 2 5) := by
  obtain ⟨-, -, hall⟩ := listLive_evicts minuteTerms
  obtain ⟨hreply, -, hevicts⟩ := hall guests guestWorld
  have hsound : guestWorld.backing.Sound := ⟨guests, stocks_guestWorker⟩
  have hworks : guestWorld.backing.Works := ⟨rfl, rfl⟩
  have hholds : ∀ h, guestWorld.backing.Holds h ↔ h ∈ guests := fun h => by
    rw [guestWorld, Backing.holds_eq stocks_guestWorker]
  have hstayed : ∀ h, ((weigh minuteTerms guests).run guestWorld).2.backing.Holds h ↔
      h ∈ stayed := by
    intro h
    rw [(hevicts hsound).stays, hholds, and_iff_right hworks, stayed_eq_filter, List.mem_filter,
      decide_eq_true_eq]
    rfl
  obtain ⟨gone, hsheds, htold⟩ := (hevicts hsound).told
  have hgone : gone.Perm [guest "prompt" minuteStart, guest "slow" minuteStart] := by
    refine (List.perm_ext_iff_of_nodup hsheds.nodup (by decide)).mpr fun h => ?_
    rw [hsheds.mem_iff, hholds, hstayed]
    have hrest : guests.filter (· ∉ stayed)
        = [guest "prompt" minuteStart, guest "slow" minuteStart] := by decide
    rw [← hrest, List.mem_filter, decide_eq_true_eq]
  refine ⟨hsound, hreply.trans (by decide), hstayed, ?_⟩
  rw [htold (by decide), hgone.length_eq]
  rfl

end Directory
end Rendezvous
