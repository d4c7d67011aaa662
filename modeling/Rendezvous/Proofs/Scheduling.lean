import Mathlib.Data.List.Forall2
import Rendezvous.Proofs.Accounts

/-!
# Scheduled demands are plays

A session meets demands, alone or side by side, in a world with delays, deadlines and disturbances.
`Session.act_plays` and `Session.together_plays` say that over a store in memory this is a run of
`MemorySystem.Disturbed`: the demands go on by its steps, in the order that the schedule finds, and
come to the same replies and the same store. So what every such run keeps is kept by sessions.
-/

namespace Rendezvous

/-- The eviction of a slot is under way or over in the system as it is in the schedule. -/
inductive Slot.Fits : Slot → Host × Option Bool → Prop
  | waiting (host : Host) (flight : Flight) : Fits (.waiting host flight) (host, none)
  | ended (host : Host) (removed : Bool) : Fits (.ended removed) (host, some removed)

/-- The interaction has come to the stage. -/
inductive Progress.Fits : Progress Reply → Stage → Prop
  | finished (reply : Reply) : Fits (.finished reply) (.going (.done reply))
  | calling {command : Command} (flight : Flight) (limit : Nat)
    (next : Outcome command → Interaction Reply) :
    Fits (.calling command flight next) (.going (.call command limit next))
  | evicting {slots : List Slot} {pairs : List (Host × Option Bool)} (limit : Nat)
    (next : List Bool → Interaction Reply) (h : List.Forall₂ Slot.Fits slots pairs) :
    Fits (.evicting slots limit next) (.evicting pairs next)

theorem Progress.Fits.value? {p : Progress Reply} {stage : Stage} (h : p.Fits stage) :
    p.value? = stage.answer? := by
  cases h <;> rfl

theorem map_eq_of_forall₂ {α β γ : Type} {R : α → β → Prop} {f : α → γ} {g : β → γ}
    (hR : ∀ a b, R a b → f a = g b) {l : List α} {l' : List β} (h : List.Forall₂ R l l') :
    l.map f = l'.map g := by
  induction h with
  | nil => rfl
  | cons hab _ ih => rw [List.map_cons, List.map_cons, hR _ _ hab, ih]

theorem Slot.fits_removed {slots : List Slot} {pairs : List (Host × Option Bool)}
    (h : List.Forall₂ Slot.Fits slots pairs) :
    slots.map Slot.removed = pairs.map (·.2.getD false) := by
  refine map_eq_of_forall₂ (fun slot pair hfit => ?_) h
  cases hfit <;> rfl

theorem Slot.fits_isOver {slots : List Slot} {pairs : List (Host × Option Bool)}
    (h : List.Forall₂ Slot.Fits slots pairs) (hover : slots.all Slot.isOver = true) :
    ∀ pair ∈ pairs, pair.2 ≠ none := by
  induction h with
  | nil => intro pair hp; cases hp
  | cons hfit _ ih =>
    rw [List.all_cons, Bool.and_eq_true] at hover
    intro pair hp
    rcases List.mem_cons.mp hp with rfl | hp
    · cases hfit with
      | waiting host flight => cases hover.1
      | ended host removed => simp
    · exact ih hover.2 pair hp

theorem Eviction.removed_answered {host : Host} (answer : Option Host) :
    Eviction.removed (.answered answer : Eviction host) = answer.isSome := by
  cases answer <;> rfl

namespace MemorySystem

/-- The system has the store and the draws of the world. -/
structure Pictures (s : MemorySystem) (w : World) : Prop where
  backing : w.backing = .memory s.store
  draws : w.draws = s.draws

variable (terms : Terms) (guard : Guard)

/-- One demand of a system goes on by its steps, until it is at a stage with `P` and the system is a
picture of a world. -/
def GoesOn (s : MemorySystem) (who : Nat) (demand : Demand) (P : Stage → Prop) (w : World) : Prop :=
  ∃ trace s' stage, s.Plays terms guard trace s' ∧ s'.Pictures w ∧
    s'.threads = s.threads.set who ⟨demand, stage⟩ ∧
    s'.threads[who]? = some ⟨demand, stage⟩ ∧ P stage

variable {terms guard} {s s' : MemorySystem} {w w' : World} {who : Nat} {demand : Demand}
  {stage : Stage} {P Q : Stage → Prop}

namespace GoesOn

theorem stays (h : s.Pictures w) (hw : s.threads[who]? = some ⟨demand, stage⟩) (hP : P stage) :
    s.GoesOn terms guard who demand P w := by
  obtain ⟨hlt, he⟩ := List.getElem?_eq_some_iff.mp hw
  refine ⟨[], s, stage, .nil, h, ?_, hw, hP⟩
  rw [← he, List.set_getElem_self]

theorem bind (h : s.GoesOn terms guard who demand P w)
    (hnext : ∀ (s' : MemorySystem) stage, s'.Pictures w → s'.threads[who]? = some ⟨demand, stage⟩ →
      P stage → s'.GoesOn terms guard who demand Q w') : s.GoesOn terms guard who demand Q w' := by
  obtain ⟨trace, s', stage, hplays, hp, hset, hw, hP⟩ := h
  obtain ⟨more, last, final, hmore, hp', hlast, hw', hQ⟩ := hnext s' stage hp hw hP
  refine ⟨trace ++ more, last, final, hplays.trans hmore, hp', ?_, hw', hQ⟩
  rw [hlast, hset, List.set_set]

theorem turn {move : Move} {old new : Stage} {x : Memory × Draws}
    (hw : s.threads[who]? = some ⟨demand, old⟩)
    (hturns : old.Turns (Memory.rules true) who (s.store, s.draws) move false x new)
    (h : (s.threads.set who ⟨demand, new⟩)[who]? = some ⟨demand, new⟩ →
      GoesOn terms guard ⟨x.1, x.2, s.threads.set who ⟨demand, new⟩⟩ who demand P w) :
    s.GoesOn terms guard who demand P w := by
  obtain ⟨trace, last, stage, hplays, hp, hlast, hstage⟩ :=
    h (List.getElem?_set_self (List.getElem?_eq_some_iff.mp hw).1)
  refine ⟨_, last, stage, (Plays.nil.snoc (.goes who hw hturns)).trans hplays, hp, ?_, hstage⟩
  rw [hlast, List.set_set]

end GoesOn

namespace Pictures

/-! ## What leaves the picture as it is -/

theorem congr (h : s.Pictures w) (hb : w'.backing = w.backing) (hd : w'.draws = w.draws) :
    s.Pictures w' :=
  ⟨hb.trans h.backing, hd.trans h.draws⟩

theorem restage (h : s.Pictures w) (threads : List Thread) :
    Pictures ⟨s.store, s.draws, threads⟩ w :=
  ⟨h.backing, h.draws⟩

theorem draw (h : s.Pictures w) :
    w.draw = (s.draws.draw.1, { w with draws := s.draws.draw.2 }) := by
  rw [World.draw, h.draws]

theorem launch (h : s.Pictures w) (command : Command) (limit : Nat) :
    s.Pictures (w.launch command limit).2 := by
  simp only [World.launch]
  split
  · exact h.congr rfl rfl
  · exact h.congr rfl rfl

theorem waitUntil (h : s.Pictures w) (time : Nat) : s.Pictures (w.waitUntil time) := by
  unfold World.waitUntil
  split
  · exact h.congr rfl rfl
  · exact h

theorem logged (h : s.Pictures w) (event? : Option Event) :
    s.Pictures (event?.elim w w.note) := by
  cases event? with
  | none => exact h
  | some event => exact h.congr rfl rfl

theorem launchAll (h : s.Pictures w) (limit : Nat) (hosts : List Host) :
    s.Pictures (w.launchAll limit hosts).2 ∧
      List.Forall₂ Slot.Fits (w.launchAll limit hosts).1 (hosts.map (·, none)) := by
  induction hosts generalizing w with
  | nil => exact ⟨h, .nil⟩
  | cons host rest ih =>
    obtain ⟨hp, hfits⟩ := ih (h.launch (.deleteById host.id) limit)
    exact ⟨hp, .cons (.waiting host _) hfits⟩

/-! ## Ends of calls -/

theorem reach (h : s.Pictures w) (command : Command) :
    (w.reach command).1 = .answered (s.store.run s.draws command).1 ∧
      (w.reach command).2.backing = .memory (s.store.run s.draws command).2.1 ∧
      (w.reach command).2.draws = (s.store.run s.draws command).2.2 := by
  simp only [World.reach, h.backing, h.draws, Backing.run, and_self]

theorem land (h : s.Pictures w) {command : Command} {limit : Nat}
    {next : Outcome command → Interaction Reply}
    (hw : s.threads[who]? = some ⟨demand, .going (.call command limit next)⟩)
    (treatment : Option Treatment) :
    s.GoesOn terms guard who demand (· = .going (next (w.land command treatment).1))
      (w.land command treatment).2 := by
  have hreach : s.GoesOn terms guard who demand (· = .going (next (w.reach command).1))
      (w.reach command).2 := by
    obtain ⟨hanswer, hb, hd⟩ := h.reach command
    rw [hanswer]
    exact .turn hw (.asks limit next false rfl) fun hw => .stays ⟨hb, hd⟩ hw rfl
  have hmisses : ∀ outcome : Outcome command, outcome.IsMiss →
      s.GoesOn terms guard who demand (· = .going (next outcome)) w := fun outcome hmiss =>
    .turn hw (.misses limit next (.missed hmiss)) fun hw =>
      .stays (h.restage _) hw rfl
  match treatment with
  | none => exact hmisses .timedOut trivial
  | some .pass => exact hreach
  | some (.fail messages) => exact hmisses (.failed (.trouble messages)) trivial
  | some .empty =>
    simp only [World.land]
    split
    · next answer hempty =>
      exact .turn hw (.misses limit next (.feigned rfl hempty)) fun hw =>
        .stays (h.restage _) hw rfl
    · exact hreach

theorem landEviction (h : s.Pictures w) {slots : List (Host × Option Bool)}
    {next : List Bool → Interaction Reply} {i : Nat} {host : Host}
    (hw : s.threads[who]? = some ⟨demand, .evicting slots next⟩)
    (hslot : slots[i]? = some (host, none)) (limit : Nat) (treatment : Option Treatment) :
    s.GoesOn terms guard who demand
      (· = .evicting (slots.set i (host, some (w.landEviction limit host treatment).1)) next)
      (w.landEviction limit host treatment).2 := by
  have hspares : ∀ w', s.Pictures w' → s.GoesOn terms guard who demand
      (· = .evicting (slots.set i (host, some false)) next) w' := fun w' hp =>
    .turn hw (.spares next i hslot) fun hw => .stays (hp.restage _) hw rfl
  match treatment with
  | none => exact hspares _ (h.logged (some (.evictionSkipped host limit)))
  | some (.fail messages) =>
    exact hspares _ (h.logged (some (.evictionFailed host (.trouble messages))))
  | some .empty => exact hspares _ (h.logged none)
  | some .pass =>
    obtain ⟨hanswer, hb, hd⟩ := h.reach (.deleteById host.id)
    simp only [World.landEviction, World.land, hanswer]
    refine .turn hw (.evicts next i false hslot rfl) fun hw => .stays (logged ?_ _) hw ?_
    · exact ⟨hb, hd⟩
    · exact congrArg (fun removed => Stage.evicting (slots.set i (host, some removed)) next)
        (Eviction.removed_answered _).symm

/-- The evictions whose time has come end one by one; those of `past` have been gone through. -/
theorem landDue (h : s.Pictures w) {slots : List Slot} {past rest : List (Host × Option Bool)}
    {next : List Bool → Interaction Reply} (limit : Nat)
    (hfits : List.Forall₂ Slot.Fits slots rest)
    (hw : s.threads[who]? = some ⟨demand, .evicting (past ++ rest) next⟩) :
    s.GoesOn terms guard who demand (fun stage => ∃ rest', stage = .evicting (past ++ rest') next ∧
      List.Forall₂ Slot.Fits (w.landDue limit slots).1 rest') (w.landDue limit slots).2 := by
  induction hfits generalizing s w past with
  | nil => exact .stays h hw ⟨[], rfl, .nil⟩
  | @cons slot pair slots rest hfit hfits ih =>
    -- the first slot has come to `passed`, and the others follow
    have hothers : ∀ {s : MemorySystem} {w : World} {slot' : Slot} (passed : Host × Option Bool),
        s.Pictures w → slot'.Fits passed →
        s.threads[who]? = some ⟨demand, .evicting (past ++ passed :: rest) next⟩ →
        s.GoesOn terms guard who demand (fun stage => ∃ rest',
          stage = .evicting (past ++ rest') next ∧
          List.Forall₂ Slot.Fits (slot' :: (w.landDue limit slots).1) rest')
          (w.landDue limit slots).2 := by
      intro s w slot' passed hp hpassed hw
      rw [List.append_cons] at hw
      refine (ih hp hw).bind ?_
      rintro s' _ hp hw ⟨rest', rfl, hrest⟩
      exact .stays hp hw ⟨passed :: rest', by simp, .cons hpassed hrest⟩
    cases hfit with
    | ended host removed => exact hothers _ h (.ended host removed) hw
    | waiting host flight =>
      simp only [World.landDue]
      split
      · have hslot : (past ++ (host, none) :: rest)[past.length]? = some (host, none) := by simp
        refine (h.landEviction hw hslot limit flight.treatment).bind ?_
        rintro s' _ hp hw rfl
        rw [List.set_append_right _ _ (Nat.le_refl _), Nat.sub_self, List.set_cons_zero] at hw
        exact hothers _ hp (.ended host _) hw
      · exact hothers _ h (.waiting host flight) hw

/-! ## Interactions -/

theorem resume_calling (h : s.Pictures w) {command : Command} {limit : Nat}
    {next : Outcome command → Interaction Reply}
    (hw : s.threads[who]? = some ⟨demand, .going (.call command limit next)⟩) (flight : Flight)
    (hnext : ∀ outcome {s : MemorySystem} {w : World}, s.Pictures w →
      s.threads[who]? = some ⟨demand, .going (next outcome)⟩ →
      s.GoesOn terms guard who demand ((next outcome).advance w).1.Fits
        ((next outcome).advance w).2) :
    s.GoesOn terms guard who demand ((Progress.calling command flight next).resume w).1.Fits
      ((Progress.calling command flight next).resume w).2 := by
  simp only [Progress.resume]
  split
  · refine (h.land hw flight.treatment).bind ?_
    rintro s' _ hp hw rfl
    exact hnext _ hp hw
  · exact .stays h hw (.calling flight limit next)

theorem resume_evicting (h : s.Pictures w) {slots : List Slot} {pairs : List (Host × Option Bool)}
    {next : List Bool → Interaction Reply} (hfits : List.Forall₂ Slot.Fits slots pairs)
    (hw : s.threads[who]? = some ⟨demand, .evicting pairs next⟩) (limit : Nat)
    (hnext : ∀ removed {s : MemorySystem} {w : World}, s.Pictures w →
      s.threads[who]? = some ⟨demand, .going (next removed)⟩ →
      s.GoesOn terms guard who demand ((next removed).advance w).1.Fits
        ((next removed).advance w).2) :
    s.GoesOn terms guard who demand ((Progress.evicting slots limit next).resume w).1.Fits
      ((Progress.evicting slots limit next).resume w).2 := by
  rw [← List.nil_append pairs] at hw
  simp only [Progress.resume]
  split
  · next hover =>
    refine (h.landDue limit hfits hw).bind ?_
    rintro s' _ hp hw ⟨rest, rfl, hrest⟩
    rw [Slot.fits_removed hrest]
    exact .turn hw (.returns next (Slot.fits_isOver hrest hover)) fun hw =>
      hnext _ (hp.restage _) hw
  · refine (h.landDue limit hfits hw).bind ?_
    rintro s' _ hp hw ⟨rest, rfl, hrest⟩
    exact .stays hp hw (.evicting limit next hrest)

theorem advance (i : Interaction Reply) (h : s.Pictures w)
    (hw : s.threads[who]? = some ⟨demand, .going i⟩) :
    s.GoesOn terms guard who demand (i.advance w).1.Fits (i.advance w).2 := by
  induction i generalizing s w with
  | done reply => exact .stays h hw (.finished reply)
  | readClock next ih =>
    exact .turn hw (.reads next w.clock) fun hw =>
      ih w.clock ⟨h.backing, h.draws⟩ hw
  | draw next ih =>
    simp only [Interaction.advance, h.draw]
    exact .turn hw (.draws next ⟨rfl, rfl⟩) fun hw => ih _ ⟨h.backing, rfl⟩ hw
  | call command limit next ih =>
    exact (h.launch command limit).resume_calling hw _ fun outcome => ih outcome
  | evict hosts limit next ih =>
    obtain ⟨hp, hfits⟩ := h.launchAll limit hosts
    exact .turn hw (.sweeps hosts limit next) fun hw =>
      (hp.restage _).resume_evicting hfits hw limit fun removed => ih removed
  | log event next ih =>
    exact .turn hw (.notes event next) fun hw => ih ⟨h.backing, h.draws⟩ hw

theorem resume {p : Progress Reply} (h : s.Pictures w) (hfits : p.Fits stage)
    (hw : s.threads[who]? = some ⟨demand, stage⟩) :
    s.GoesOn terms guard who demand (p.resume w).1.Fits (p.resume w).2 := by
  cases hfits with
  | finished reply => exact .stays h hw (.finished reply)
  | calling flight limit next =>
    exact h.resume_calling hw flight fun outcome _ _ => advance (next outcome)
  | evicting limit next hslots =>
    exact h.resume_evicting hslots hw limit fun removed _ _ => advance (next removed)

end Pictures
end MemorySystem

/-! ## A demand alone -/

namespace World

variable {w : World} {limit t : Nat}

@[simp] theorem elapsed_landEviction (host : Host) (treatment : Option Treatment) :
    (w.landEviction limit host treatment).2.elapsed = w.elapsed := by
  have hland : ∀ command treatment, (w.land command treatment).2.elapsed = w.elapsed := by
    intro command treatment
    match treatment with
    | none | some .pass | some (.fail _) => rfl
    | some .empty =>
      simp only [World.land]
      split <;> rfl
  simp only [World.landEviction]
  cases Eviction.event? limit (w.land (.deleteById host.id) treatment).1 with
  | none => exact hland _ _
  | some event => exact hland _ _

/-- What is still under way had been so before, and its time is to come. -/
theorem mem_wakes_landDue {slots : List Slot}
    (ht : t ∈ (w.landDue limit slots).1.filterMap Slot.wake?) :
    t ∈ slots.filterMap Slot.wake? ∧ w.elapsed < t := by
  induction slots generalizing w with
  | nil => cases ht
  | cons slot slots ih =>
    cases slot with
    | ended removed => exact ih ht
    | waiting host flight =>
      simp only [World.landDue] at ht
      split at ht
      · obtain ⟨hmem, hlt⟩ := ih ht
        rw [elapsed_landEviction] at hlt
        exact ⟨List.mem_cons_of_mem _ hmem, hlt⟩
      · next hwake =>
        rcases List.mem_cons.mp ht with rfl | ht
        · exact ⟨List.mem_cons_self, Nat.not_le.mp hwake⟩
        · obtain ⟨hmem, hlt⟩ := ih ht
          exact ⟨List.mem_cons_of_mem _ hmem, hlt⟩

theorem le_elapsed_waitUntil (time : Nat) : time ≤ (w.waitUntil time).elapsed := by
  unfold World.waitUntil
  split
  · exact Nat.le_refl _
  · omega

/-- Once the times of all evictions have been gone through, none is under way. -/
theorem wakes_landAt {slots : List Slot} {times : List Nat}
    (ht : ∀ t ∈ slots.filterMap Slot.wake?, t ∈ times) :
    (w.landAt limit slots times).1.filterMap Slot.wake? = [] := by
  induction times generalizing w slots with
  | nil => exact List.eq_nil_iff_forall_not_mem.mpr fun t hmem => by cases ht t hmem
  | cons time times ih =>
    refine ih fun t hmem => ?_
    obtain ⟨hslot, hlt⟩ := mem_wakes_landDue hmem
    rcases List.mem_cons.mp (ht t hslot) with rfl | hrest
    · exact absurd (le_elapsed_waitUntil t) (Nat.not_le.mpr hlt)
    · exact hrest

theorem isOver_landAt {slots : List Slot} {times : List Nat}
    (ht : ∀ t ∈ slots.filterMap Slot.wake?, t ∈ times) :
    (w.landAt limit slots times).1.all Slot.isOver = true := by
  refine List.all_eq_true.mpr fun slot hslot => ?_
  have hwake := List.filterMap_eq_nil_iff.mp (wakes_landAt ht) slot hslot
  cases slot with
  | waiting host flight => cases hwake
  | ended removed => rfl

end World

namespace MemorySystem

variable {terms : Terms} {guard : Guard} {s s' : MemorySystem} {w w' : World} {who : Nat}
  {demand : Demand} {stage : Stage}

namespace Pictures

theorem landAt (h : s.Pictures w) {slots : List Slot} {pairs : List (Host × Option Bool)}
    {next : List Bool → Interaction Reply} (limit : Nat) (times : List Nat)
    (hfits : List.Forall₂ Slot.Fits slots pairs)
    (hw : s.threads[who]? = some ⟨demand, .evicting pairs next⟩) :
    s.GoesOn terms guard who demand (fun stage => ∃ pairs', stage = .evicting pairs' next ∧
      List.Forall₂ Slot.Fits (w.landAt limit slots times).1 pairs')
      (w.landAt limit slots times).2 := by
  induction times generalizing s w slots pairs with
  | nil => exact .stays h hw ⟨pairs, rfl, hfits⟩
  | cons time times ih =>
    rw [← List.nil_append pairs] at hw
    refine ((h.waitUntil time).landDue limit hfits hw).bind ?_
    rintro s' _ hp hw ⟨rest, rfl, hrest⟩
    exact ih hp hrest hw

theorem call (h : s.Pictures w) {command : Command} {limit : Nat}
    {next : Outcome command → Interaction Reply}
    (hw : s.threads[who]? = some ⟨demand, .going (.call command limit next)⟩) :
    s.GoesOn terms guard who demand (· = .going (next (w.call command limit).1))
      (w.call command limit).2 :=
  ((h.launch command limit).waitUntil (w.launch command limit).1.wake).land hw
    (w.launch command limit).1.treatment

theorem evict (h : s.Pictures w) {hosts : List Host} {limit : Nat}
    {next : List Bool → Interaction Reply}
    (hw : s.threads[who]? = some ⟨demand, .going (.evict hosts limit next)⟩) :
    s.GoesOn terms guard who demand (· = .going (next (w.evict hosts limit).1))
      (w.evict hosts limit).2 := by
  obtain ⟨hp, hfits⟩ := h.launchAll limit hosts
  refine .turn hw (.sweeps hosts limit next) fun hw => ?_
  refine ((hp.restage _).landAt limit
    (((w.launchAll limit hosts).1.filterMap Slot.wake?).mergeSort) hfits hw).bind ?_
  rintro s' _ hp hw ⟨pairs, rfl, hpairs⟩
  have hended := Slot.fits_isOver hpairs (World.isOver_landAt fun _ => List.mem_mergeSort.mpr)
  refine .turn hw (.returns next hended) fun hw => .stays (hp.restage _) hw ?_
  rw [← Slot.fits_removed hpairs]
  rfl

/-- A demand with the world to itself goes on to its end. -/
theorem run (i : Interaction Reply) (h : s.Pictures w)
    (hw : s.threads[who]? = some ⟨demand, .going i⟩) :
    s.GoesOn terms guard who demand (· = .going (.done (i.run w).1)) (i.run w).2 := by
  induction i generalizing s w with
  | done reply => exact .stays h hw rfl
  | readClock next ih =>
    exact .turn hw (.reads next w.clock) fun hw =>
      ih w.clock ⟨h.backing, h.draws⟩ hw
  | draw next ih =>
    simp only [Interaction.run, h.draw]
    exact .turn hw (.draws next ⟨rfl, rfl⟩) fun hw => ih _ ⟨h.backing, rfl⟩ hw
  | call command limit next ih =>
    refine (h.call hw).bind ?_
    rintro s' _ hp hw rfl
    exact ih _ hp hw
  | evict hosts limit next ih =>
    refine (h.evict hw).bind ?_
    rintro s' _ hp hw rfl
    exact ih _ hp hw
  | log event next ih =>
    exact .turn hw (.notes event next) fun hw => ih ⟨h.backing, h.draws⟩ hw

end Pictures

/-! ## Demands side by side -/

/-- Behind the threads `past`, the demands of a system have come as far as those of a schedule. -/
structure Follows (s : MemorySystem) (w : World) (past : List Thread) (all : List (Progress Reply))
    (demands : List Demand) (threads : List Thread) : Prop where
  picture : s.Pictures w
  split : s.threads = past ++ threads
  demands : threads.map (·.demand) = demands
  fits : List.Forall₂ (fun p thread => p.Fits thread.stage) all threads

namespace Follows

variable {past threads : List Thread} {p : Progress Reply} {all : List (Progress Reply)}
  {demands : List Demand}

theorem cons (h : s.Follows w (past ++ [⟨demand, stage⟩]) all demands threads)
    (hfit : p.Fits stage) :
    s.Follows w past (p :: all) (demand :: demands) (⟨demand, stage⟩ :: threads) := by
  refine ⟨h.picture, ?_, ?_, .cons hfit h.fits⟩
  · rw [h.split, ← List.append_cons]
  · rw [List.map_cons, h.demands]

theorem waitUntil (h : s.Follows w past all demands threads) (time : Nat) :
    s.Follows (w.waitUntil time) past all demands threads :=
  ⟨h.picture.waitUntil time, h.split, h.demands, h.fits⟩

theorem resumeAll (h : s.Follows w past all demands threads) :
    ∃ trace s' threads', s.Plays terms guard trace s' ∧
      s'.Follows (Schedule.resumeAll w all).2 past (Schedule.resumeAll w all).1 demands
        threads' := by
  obtain ⟨hp, hsplit, rfl, hfits⟩ := h
  induction hfits generalizing s w past with
  | nil => exact ⟨[], s, [], .nil, hp, hsplit, rfl, .nil⟩
  | @cons p thread all threads hfit hfits ih =>
    have hw : s.threads[past.length]? = some thread := by rw [hsplit]; simp
    have hgoes : s.GoesOn terms guard _ _ _ _ := hp.resume hfit hw
    obtain ⟨trace, middle, stage, hplays, hp, hset, _, hstage⟩ := hgoes
    rw [hsplit, List.set_append_right _ _ (Nat.le_refl _), Nat.sub_self, List.set_cons_zero,
      List.append_cons] at hset
    obtain ⟨more, s', threads', hmore, hfollows⟩ := ih hp hset
    exact ⟨trace ++ more, s', _, hplays.trans hmore, hfollows.cons hstage⟩

/-- Time goes on only when all demands wait, and no demand starts or ends by that. -/
theorem settle (rounds : Nat) (h : s.Follows w past all demands threads) :
    ∃ trace s' threads', s.Plays terms guard trace s' ∧
      s'.Follows (Schedule.settle rounds w all).2 past (Schedule.settle rounds w all).1 demands
        threads' := by
  induction rounds generalizing s w all threads with
  | zero => exact ⟨[], s, threads, .nil, h⟩
  | succ rounds ih =>
    simp only [Schedule.settle]
    split
    · exact ⟨[], s, threads, .nil, h⟩
    · next time _ =>
      obtain ⟨trace, middle, resumed, hplays, hresumed⟩ := (h.waitUntil time).resumeAll
      obtain ⟨more, s', threads', hmore, hsettled⟩ := ih hresumed
      exact ⟨trace ++ more, s', threads', hplays.trans hmore, hsettled⟩

end Follows

theorem Pictures.beginAll (session : Session) (h : s.Pictures w) (demands : List Demand) :
    ∃ trace s' threads, s.Plays session.terms session.guard trace s' ∧
      s'.Follows (session.beginAll w (demands.map .serve)).2 s.threads
        (session.beginAll w (demands.map .serve)).1 demands threads := by
  induction demands generalizing s w with
  | nil => exact ⟨[], s, [], .nil, h, (List.append_nil _).symm, rfl, .nil⟩
  | cons demand demands ih =>
    have hw : (s.threads ++ [⟨demand, .going (demand.interaction session.terms session.guard)⟩])[
        s.threads.length]? = some _ := List.getElem?_concat_length
    have hgoes : GoesOn session.terms session.guard _ _ _ _ _ := (h.restage _).advance _ hw
    obtain ⟨trace, middle, stage, hplays, hp, hset, _, hstage⟩ := hgoes
    rw [List.set_append_right _ _ (Nat.le_refl _), Nat.sub_self, List.set_cons_zero] at hset
    obtain ⟨more, s', threads, hmore, hfollows⟩ := ih hp
    rw [hset] at hfollows
    have hstart : s.Plays session.terms session.guard _ _ :=
      Plays.nil.snoc (.starts s demand)
    exact ⟨_, s', _, hstart.trans (hplays.trans hmore), hfollows.cons hstage⟩

end MemorySystem

/-- A demand alone over a store in memory is met by a run of steps from that store. -/
theorem Session.act_plays (session : Session) {m : Memory}
    (h : session.world.backing = .memory m) (demand : Demand) :
    ∃ trace s, MemorySystem.Plays session.terms session.guard ⟨m, session.world.draws, []⟩ trace s ∧
      s.threads = [⟨demand, .going (.done (session.act (.serve demand)).1)⟩] ∧
      s.Pictures (session.act (.serve demand)).2 := by
  have hstart : MemorySystem.Plays session.terms session.guard ⟨m, session.world.draws, []⟩ _ _ :=
    MemorySystem.Plays.nil.snoc (.starts _ demand)
  have hp : MemorySystem.Pictures ⟨m, session.world.draws,
      [⟨demand, .going (demand.interaction session.terms session.guard)⟩]⟩ session.world := ⟨h, rfl⟩
  have hgoes : MemorySystem.GoesOn session.terms session.guard _ 0 demand _ _ := hp.run _ rfl
  obtain ⟨trace, s, stage, hplays, hs, hset, _, rfl⟩ := hgoes
  exact ⟨_, s, hstart.trans hplays, hset, hs⟩

/-- Demands side by side over a store in memory are met by a run of steps from that store. -/
theorem Session.together_plays (session : Session) {m : Memory}
    (h : session.world.backing = .memory m) (demands : List Demand) :
    ∃ trace s, MemorySystem.Plays session.terms session.guard ⟨m, session.world.draws, []⟩ trace s ∧
      s.threads.map (·.demand) = demands ∧
      (session.together (demands.map .serve)).1
        = .together (s.threads.map (·.stage.answer?.getD .unfinished)) ∧
      s.Pictures (session.together (demands.map .serve)).2 := by
  have hstart : MemorySystem.Pictures ⟨m, session.world.draws, []⟩ session.world := ⟨h, rfl⟩
  obtain ⟨trace, middle, begun, hplays, hbegun⟩ := hstart.beginAll session demands
  obtain ⟨more, s, threads, hmore, hended⟩ := hbegun.settle (session.rounds (demands.map .serve))
  have hs : s.threads = threads := hended.split
  subst hs
  refine ⟨trace ++ more, s, hplays.trans hmore, hended.demands, ?_, hended.picture⟩
  refine congrArg Reply.together (map_eq_of_forall₂ (fun p thread hfit => ?_) hended.fits)
  rw [hfit.value?]

end Rendezvous
