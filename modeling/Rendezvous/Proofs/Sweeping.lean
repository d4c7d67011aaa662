import Rendezvous.Proofs.Changes
import Rendezvous.Proofs.Eviction

/-!
# What a listing removes

In every run a listing removes nothing but hosts that it found expired in its snapshot
(`MemorySystem.Plays.sweeps`), and the log is told how many, once all its evictions are over
(`MemorySystem.Plays.tally`).
-/

namespace Rendezvous

/-! ## Hosts since a snapshot -/

/-- Since the snapshot a host with this id was added. -/
def Readded (since : List Move) (id : String) : Prop :=
  ∃ move ∈ since, ∃ host, move.change? = some (.added host) ∧ host.id = id

/-- A stored host with the id of one in the snapshot is that host, refreshed at most, unless the id
was given away anew. -/
def Kin (snapshot : List Host) (since : List Move) (store : Memory) : Prop :=
  ∀ host ∈ snapshot, ∀ h, store.Holds h → h.id = host.id →
    h = { host with updatedAt := h.updatedAt } ∨ Readded since host.id

theorem kin_list {store : Memory} (hm : store.Consistent) : Kin store.list [] store := by
  intro host hmem h hh hid
  rw [hh.eq_of_id ((Memory.mem_list_iff hm).mp hmem) hid]
  exact .inl rfl

theorem Kin.append {snapshot : List Host} {since : List Move} {store store' : Memory} {move : Move}
    (hk : Kin snapshot since store) (ht : store.Takes move.change? store') :
    Kin snapshot (since ++ [move]) store' := by
  intro host hmem h hh hid
  have hmore : Readded since host.id → Readded (since ++ [move]) host.id := by
    rintro ⟨earlier, hin, hadded⟩
    exact ⟨earlier, List.mem_append_left _ hin, hadded⟩
  have hold : store.Holds h → h = { host with updatedAt := h.updatedAt } ∨
      Readded (since ++ [move]) host.id := fun hheld => (hk host hmem h hheld hid).imp_right hmore
  generalize hc : move.change? = change at ht
  cases ht with
  | still => exact hold hh
  | @added new newId freeCode =>
    rcases Memory.holds_add.mp hh with rfl | ⟨hheld, _⟩
    · exact .inr ⟨move, by simp, h, hc, hid⟩
    · exact hold hheld
  | removed held => exact hold (Memory.holds_remove.mp hh).1
  | @renewed before held moment =>
    rcases Memory.holds_renew.mp hh with rfl | ⟨hheld, _⟩
    · rcases hk host hmem before held hid with he | hre
      · exact .inl (by rw [he])
      · exact .inr (hmore hre)
    · exact hold hheld
  | merged patch => exact hold hh

/-! ## What a listing may remove -/

/-- The host was expired in the snapshot that the demand took, at the time that it read then. It may
have been refreshed since, and only if its id was given away anew it is another one. -/
def Swept (terms : Terms) (past : List Move) (who : Nat) (host : Host) : Prop :=
  ∃ before snapshot since now found, past = before ++ .asks who .list snapshot :: since ∧
    readings past who = [now] ∧ found ∈ snapshot ∧ terms.Expired found.updatedAt now ∧
    found.id = host.id ∧
    (host = { found with updatedAt := host.updatedAt } ∨ Readded since host.id)

/-- All that the demand changed was that it removed hosts that it might remove. -/
def Sweeps (terms : Terms) (past : List Move) (who : Nat) : Prop :=
  ∀ before move later, past = before ++ move :: later → move.who? = some who →
    ∀ change, move.change? = some change →
      ∃ host, change = .removed host ∧ Swept terms before who host

theorem Sweeps.append {terms : Terms} {past : List Move} {who : Nat} {move : Move}
    (hs : Sweeps terms past who) (hmove : move.who? = some who →
      ∀ change, move.change? = some change →
        ∃ host, change = .removed host ∧ Swept terms past who host) :
    Sweeps terms (past ++ [move]) who := by
  intro before earlier later hsplit
  rcases List.eq_nil_or_concat later with rfl | ⟨later, last, rfl⟩
  · obtain ⟨rfl, he⟩ := List.append_inj' hsplit rfl
    obtain rfl := List.singleton_inj.mp he
    exact hmove
  · have hsplit' : past ++ [move] = (before ++ earlier :: later) ++ [last] := by
      rw [hsplit]
      simp
    obtain ⟨rfl, _⟩ := List.append_inj' hsplit' rfl
    exact hs before earlier later rfl

/-- The only call of a listing is for all hosts. -/
theorem Demand.Allows.eq_list {terms : Terms} {guard : Guard} {c : Course} {command : Command}
    (h : Allows terms guard .listLive c (.call command)) : command = .list := by
  cases h with
  | call asks stems hu =>
    cases asks
    rfl

/-- A listing that has no snapshot evicts nothing, and has changed nothing. -/
theorem Course.Run.unswept {terms : Terms} {guard : Guard} {feigned missed : Bool} {who : Nat}
    {moves : List Move} {c : Course}
    (h : Run (Demand.May terms guard .listLive) feigned who moves missed c) :
    (c.slots = [] ∧ changesBy who moves = []) ∨
      ∃ snapshot, c.ended = some ⟨.list, .answered snapshot⟩ := by
  induction h with
  | nothing => exact .inl ⟨rfl, rfl⟩
  | other h hne ih => rwa [changesBy_other _ hne]
  | own h step ih =>
    rcases ih with ⟨hslots, hchanges⟩ | ⟨snapshot, hended⟩
    · rw [changesBy_own _ step.who?, hchanges, List.nil_append]
      cases step with
      | asks hmay =>
        obtain rfl := hmay.allows.eq_list
        exact .inl ⟨hslots, rfl⟩
      | sweeps hmay =>
        cases hmay.allows with
        | evict ended => exact .inr ⟨_, ended⟩
      | evicts hslot | spares hslot =>
        rw [hslots] at hslot
        cases hslot
      | reads | draws | notes | misses => exact .inl ⟨hslots, rfl⟩
      | returns => exact .inl ⟨rfl, rfl⟩
    · cases step with
      | asks hmay | misses hmay =>
        obtain ⟨_, ⟨⟩⟩ := hmay.allows.call_cases.1.insert_of_ended hended
      | _ => exact .inr ⟨snapshot, hended⟩

/-- The changes that a listing makes are removals of hosts that it waits to evict. -/
theorem Stage.Turns.removes {terms : Terms} {guard : Guard} {feigned late : Bool} {who : Nat}
    {x x' : Memory × Draws} {old new : Stage} {move : Move}
    (h : old.Turns (Memory.rules feigned) who x move late x' new) (hm : x.1.Consistent)
    {ends : Course → Reply → Prop} {c : Course}
    (hkeeps : old.Keeps (Demand.May terms guard .listLive) ends c) {change : Change}
    (hc : move.change? = some change) :
    ∃ slots next, old = .evicting slots next ∧ ∃ slot ∈ slots, ∃ host, change = .removed host ∧
      x.1.Holds host ∧ host.id = slot.1.id := by
  cases h with
  | asks limit next late hrun =>
    obtain rfl := hkeeps.2.1.allows.eq_list
    cases hc
  | @evicts slots host next i late answer hslot hrun =>
    refine ⟨slots, next, rfl, (host, none), List.mem_of_getElem? hslot, ?_⟩
    obtain rfl : (x.1.deleteById host.id).1 = answer := Outcome.answered.inj hrun
    rcases x.1.deleteById_cases hm host.id with ⟨he, -⟩ | ⟨found, he, hholds, hid⟩
    · rw [he] at hc
      cases hc
    · rw [he] at hc
      cases hc
      exact ⟨found, rfl, hholds, hid⟩
  | _ => cases hc

/-- A listing, in any run, beside any other demands. -/
theorem MemorySystem.Plays.sweeps {terms : Terms} {guard : Guard} {start s : MemorySystem}
    {trace : List MemoryTransition}
    (h : start.Plays terms guard trace s) (hm : start.store.Consistent) (hs : start.threads = [])
    {who : Nat} {thread : Thread} (hw : s.threads[who]? = some thread)
    (hl : thread.demand = .listLive) : Sweeps terms (trace.map (·.move)) who := by
  -- With the removals goes the course, by which each of them is found in order.
  refine (h.threads (P := fun who demand trace _ stage => demand = .listLive →
    Sweeps terms (trace.map (·.move)) who ∧ ∃ c,
      Course.Run (Demand.May terms guard .listLive) true who (trace.map (·.move)) false c ∧
      stage.Keeps (Demand.May terms guard .listLive) (Demand.Ends guard .listLive) c)
    ?_ ?_ ?_ hs hw hl).1
  · rintro who demand trace - hnone rfl
    have hmoves : ∀ move ∈ trace.map (·.move), move.who? ≠ some who := by
      simpa using hnone
    refine ⟨fun before move later hsplit hown => ?_, {}, .of_fresh hmoves, rfl,
      Directory.keeps_listLive terms⟩
    exact absurd hown (hmoves move (by rw [hsplit]; simp))
  · rintro who demand trace b old new run ih hturns hl
    obtain ⟨hsweeps, c, hrun, hkeeps⟩ := ih hl
    obtain ⟨c', hstep, hnew⟩ := hturns.keeps hkeeps
    rw [List.map_append]
    refine ⟨hsweeps.append fun _ change hc => ?_, c', hrun.own hstep, hnew⟩
    have hcons := run.consistent hm
    obtain ⟨slots, next, rfl, slot, hslot, host, rfl, hholds, hid⟩ :=
      hturns.removes hcons hkeeps hc
    obtain ⟨before, snapshot, since, now, hsplit, hread, hmem, hexp⟩ := hkeeps.stale hrun hslot
    have hkin : Kin snapshot since b.before.store :=
      run.since kin_list (fun hm hk hmoved => hk.append (hmoved.takes hm)) hm hsplit
    refine ⟨host, rfl, before, snapshot, since, now, slot.1, hsplit, hread, hmem, hexp, hid.symm,
      ?_⟩
    rw [hid]
    exact hkin slot.1 hmem host hholds hid
  · rintro who demand trace b stage - ih hne - hl
    obtain ⟨hsweeps, c, hrun, hkeeps⟩ := ih hl
    rw [List.map_append]
    exact ⟨hsweeps.append fun hown => absurd hown hne, c, hrun.other hne, hkeeps⟩

/-! ## Tallies -/

/-- The end of a listing that evicted: the log is told how many were removed. -/
def report (live : List Host) (total : Nat) (removed : List Bool) : Interaction Reply :=
  .log (.swept (removed.count true) total) (.done (.hosts live))

/-- How many evictions of a listing succeeded and are not reported yet. -/
def Stage.tally : Stage → Nat
  | .evicting slots _ => slots.countP fun slot => slot.2 = some true
  | .going (.log event _) => event.evictions
  | .going _ => 0

def Course.tally (c : Course) : Nat := (c.slots.countP fun slot => slot.2 = some true) + c.owed

theorem Stage.Keeps.tally {terms : Terms} {guard : Guard} {demand : Demand} {stage : Stage}
    {c : Course} (h : stage.Keeps (demand.May terms guard) (demand.Ends guard) c) :
    stage.tally = c.tally := by
  cases stage with
  | going i =>
    obtain ⟨hslots, hkeeps⟩ := h
    rw [Course.tally, hslots, List.countP_nil, Nat.zero_add]
    cases i with
    | done reply => exact hkeeps.reported.symm
    | readClock | draw | call | evict | log => exact hkeeps.1.reports
  | evicting slots next =>
    obtain ⟨⟨past, hmay, rfl⟩, -⟩ := h
    have howed : past.owed = 0 := hmay.reports.symm
    show _ = _ + past.owed
    rw [howed]
    rfl

theorem countP_set {slots : List (Host × Option Bool)} {i : Nat} {host : Host}
    (h : slots[i]? = some (host, none)) (removed : Bool) :
    (slots.set i (host, some removed)).countP (fun slot => slot.2 = some true)
      = slots.countP (fun slot => slot.2 = some true) + if removed then 1 else 0 := by
  obtain ⟨hlt, hslot⟩ := List.getElem?_eq_some_iff.mp h
  rw [List.countP_set hlt, hslot]
  cases removed <;> simp

theorem count_removed (slots : List (Host × Option Bool)) :
    (slots.map (·.2.getD false)).count true = slots.countP fun slot => slot.2 = some true := by
  rw [List.count, List.countP_map]
  refine List.countP_congr fun slot _ => ?_
  obtain ⟨host, ended⟩ := slot
  cases ended <;> simp

/-- What a listing removed it has reported, or will report. -/
theorem Course.Run.tally {terms : Terms} {guard : Guard} {feigned : Bool} {who : Nat}
    {moves : List Move} {missed : Bool} {c : Course}
    (h : Run (Demand.May terms guard .listLive) feigned who moves missed c) (hin : missed = false) :
    (changesBy who moves).length = c.tally + reportedBy who moves := by
  induction h with
  | nothing => rfl
  | other h hne ih => rw [changesBy_other _ hne, reportedBy_other _ hne, ih hin]
  | @own moves move missed late c c' h step ih =>
    obtain ⟨rfl, rfl⟩ := Bool.or_eq_false_iff.mp hin
    have hpast := ih rfl
    rw [changesBy_own _ step.who?, reportedBy_own _ step.who?, List.length_append, hpast]
    cases step with
    | @notes event hmay =>
      have hreport : event.evictions = c.owed := hmay.reports
      simp only [Course.tally, notes, Move.report, Move.change?, Option.toList_none,
        List.length_nil]
      omega
    | @asks command hmay answer =>
      obtain rfl := hmay.allows.eq_list
      rfl
    | @sweeps hosts hmay hnone =>
      have hfresh : (hosts.map (·, (none : Option Bool))).countP (fun slot => slot.2 = some true)
          = 0 := by
        rw [List.countP_map, List.countP_eq_zero]
        intro host _
        simp
      simp only [Course.tally, hfresh, hnone, List.countP_nil]
      rfl
    | evicts hslot answer =>
      simp only [Course.tally, countP_set hslot, Move.change?, Move.report]
      cases answer with
      | none => rfl
      | some removed =>
        simp only [Bool.not_false, Option.isSome_some, Bool.true_and, Option.map_some,
          Option.toList_some, List.length_singleton, reduceIte]
        omega
    | spares hslot =>
      simp only [Course.tally, countP_set hslot]
      rfl
    | returns =>
      simp only [Course.tally, Course.sweeps, count_removed, List.countP_nil, Move.change?,
        Move.report, Option.toList_none, List.length_nil]
      omega
    | reads | draws | misses => rfl

/-- In any run a listing has removed as many hosts as it has reported and has still to report. -/
theorem MemorySystem.Plays.tally {terms : Terms} {guard : Guard} {start s : MemorySystem}
    {trace : List MemoryTransition}
    (h : start.Plays terms guard trace s) (hs : start.threads = []) {who : Nat} {thread : Thread}
    (hw : s.threads[who]? = some thread) (hl : thread.demand = .listLive) :
    (changesBy who (trace.map (·.move))).length
      = thread.stage.tally + reportedBy who (trace.map (·.move)) := by
  obtain ⟨c, hrun, hkeeps⟩ := h.course hs hw
  rw [hl] at hrun hkeeps
  rw [hkeeps.tally]
  exact hrun.tally rfl

end Rendezvous
