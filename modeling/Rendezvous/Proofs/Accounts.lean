import Mathlib.Data.List.Nodup
import Rendezvous.Proofs.Ledger
import Rendezvous.Proofs.Sweeping

/-!
# Accounts of a run

Every host that a registration is answered with leaves the store at most once: by a deletion that is
answered with it, or by one listing that counts it. `MemorySystem.Plays.accounted` says so of every
run in which no id is drawn twice, at every moment of it, and so the number of stored hosts is that
of the registrations less those of the deletions and of the counted evictions.
-/

namespace Rendezvous

/-! ## Certain answers -/

/-- The reply, once it is certain. -/
def Stage.answer? : Stage → Option Reply
  | .going i => i.answer?
  | .evicting _ _ => none

namespace Thread

def registered? (thread : Thread) : Option Host :=
  match thread.demand, thread.stage.answer? with
  | .register _, some (.host h) => some h
  | _, _ => none

def deleted? (thread : Thread) : Option Host :=
  match thread.demand, thread.stage.answer? with
  | .deleteById _, some (.host h) => some h
  | .deleteByCode _, some (.host h) => some h
  | _, _ => none

end Thread

namespace Change

def added? : Change → Option Host
  | .added host => some host
  | _ => none

def removed? : Change → Option Host
  | .removed host => some host
  | _ => none

end Change

/-- What a demand changed so far agrees with its answer and its reports. -/
structure Squared (who : Nat) (past : List Move) (thread : Thread) : Prop where
  registered : (changesBy who past).filterMap Change.added? = thread.registered?.toList
  deleted : thread.demand ≠ .listLive →
    (changesBy who past).filterMap Change.removed? = thread.deleted?.toList
  evicted : thread.demand = .listLive →
    ((changesBy who past).filterMap Change.removed?).length
      = thread.stage.tally + reportedBy who past
  silent : thread.demand ≠ .listLive → thread.stage.tally = 0 ∧ reportedBy who past = 0

section

variable {terms : Terms} {guard : Guard} {demand : Demand} (hl : demand ≠ .listLive)
  (hh : ∀ request, demand ≠ .http request)

include hl hh

/-- Once the reply of a demand other than a listing is certain, it tells of what the last call
changed; before that no call has changed anything. -/
theorem Stage.Keeps.told {stage : Stage} {c : Course}
    (h : stage.Keeps (demand.May terms guard) (demand.Ends guard) c) :
    (∃ reply, stage.answer? = some reply ∧ Told demand reply (c.did Outcome.change?)) ∨
      stage.answer? = none ∧ c.did Outcome.change? = none := by
  cases stage with
  | going i =>
    obtain ⟨c', hended, ⟨reply, ha, hends⟩ | ⟨ha, q, hmay, hq⟩⟩ := h.2.answer?_cases
    · exact .inl ⟨reply, ha, (hends.tells.of_ended hended.symm).told hl hh⟩
    · refine .inr ⟨ha, ?_⟩
      have hunsettled : c'.Unsettled := hmay.allows.unsettled hl hh hq
      rw [Course.did, ← hended]
      exact hunsettled.did fun _ => rfl
  | evicting slots next =>
    obtain ⟨⟨past, hmay, rfl⟩, -⟩ := h
    cases hmay.allows with
    | evict => exact absurd rfl hl
    | http => exact absurd rfl (hh _)

theorem Course.Run.squared {who : Nat} {past : List Move} {stage : Stage} {c : Course}
    (h : Run (demand.May terms guard) true who past false c)
    (hkeeps : stage.Keeps (demand.May terms guard) (demand.Ends guard) c) :
    Squared who past ⟨demand, stage⟩ := by
  obtain ⟨hslots, howed, hreported⟩ := h.idle hl hh
  have htally : stage.tally = 0 := by
    rw [hkeeps.tally, Course.tally, hslots, howed]
    rfl
  refine ⟨?_, fun _ => ?_, fun he => absurd he hl, fun _ => ⟨htally, hreported⟩⟩
  all_goals
    rw [h.changes hl hh]
    rcases hkeeps.told hl hh with ⟨reply, ha, htold⟩ | ⟨ha, hnone⟩
    · generalize c.did Outcome.change? = made at htold
      cases htold <;>
        simp [Thread.registered?, Thread.deleted?, ha, Change.added?, Change.removed?]
    · simp [Thread.registered?, Thread.deleted?, ha, hnone]

end

theorem Sweeps.removed {terms : Terms} {past : List Move} {who : Nat} (h : Sweeps terms past who) :
    ∀ change ∈ changesBy who past, ∃ host, change = .removed host := by
  intro change hmem
  obtain ⟨move, hmove, hc⟩ := List.mem_filterMap.mp hmem
  obtain ⟨before, later, rfl⟩ := List.append_of_mem hmove
  rw [Move.own?] at hc
  split at hc
  · next hown =>
    obtain ⟨host, rfl, _⟩ := h before move later rfl hown change hc
    exact ⟨host, rfl⟩
  · cases hc

/-! ## The demands of a run -/

/-- The sum over a list in which one element is replaced. -/
theorem sum_map_set {α : Type} (f : α → Nat) {l : List α} {i : Nat} {old : α}
    (h : l[i]? = some old) (new : α) :
    ((l.set i new).map f).sum + f old = (l.map f).sum + f new := by
  induction l generalizing i with
  | nil => cases h
  | cons a rest ih =>
    cases i with
    | zero =>
      cases h
      simp only [List.set_cons_zero, List.map_cons, List.sum_cons]
      omega
    | succ i =>
      have hrest := ih h
      simp only [List.set_cons_succ, List.map_cons, List.sum_cons]
      omega

theorem MemorySystem.Plays.squared {terms : Terms} {guard : Guard} {start s : MemorySystem}
    {trace : List MemoryTransition}
    (h : start.Plays terms guard trace s) (hm : start.store.Consistent) (hs : start.threads = [])
    {who : Nat} {thread : Thread} (hw : s.threads[who]? = some thread)
    (hh : ∀ request, thread.demand ≠ .http request) :
    Squared who (trace.map (·.move)) thread := by
  by_cases hl : thread.demand = .listLive
  · have hremoved := (h.sweeps hm hs hw hl).removed
    refine ⟨?_, fun hne => absurd hl hne, fun _ => ?_, fun hne => absurd hl hne⟩
    · rw [Thread.registered?, hl, Option.toList_none]
      refine List.filterMap_eq_nil_iff.mpr fun change hmem => ?_
      obtain ⟨host, rfl⟩ := hremoved change hmem
      rfl
    · rw [← h.tally hs hw hl, List.length_filterMap_eq_countP, List.countP_eq_length]
      intro change hmem
      obtain ⟨host, rfl⟩ := hremoved change hmem
      rfl
  · obtain ⟨c, hrun, hkeeps⟩ := h.course hs hw
    exact hrun.squared hl hh hkeeps

/-- How many hosts a demand brought into the store, by its answer. -/
def Thread.gains (thread : Thread) : Nat := thread.registered?.toList.length

/-- How many hosts a demand took out of the store, by its answer or by what it has not reported
yet. -/
def Thread.losses (thread : Thread) : Nat := thread.deleted?.toList.length + thread.stage.tally

namespace Squared

variable {who : Nat} {past : List Move} {thread : Thread}

theorem gains_eq (h : Squared who past thread) :
    ((changesBy who past).filterMap Change.added?).length = thread.gains := by
  rw [h.registered]
  rfl

theorem losses_eq (h : Squared who past thread) :
    ((changesBy who past).filterMap Change.removed?).length
      = thread.losses + reportedBy who past := by
  by_cases hl : thread.demand = .listLive
  · obtain ⟨demand, stage⟩ := thread
    obtain rfl := hl
    rw [h.evicted rfl]
    show stage.tally + _ = 0 + stage.tally + _
    rw [Nat.zero_add]
  · obtain ⟨htally, hreported⟩ := h.silent hl
    rw [h.deleted hl, Thread.losses, htally, hreported]
    rfl

end Squared

theorem Move.length_entry? {move : Move} {who : Nat} (h : move.who? = some who) :
    (move.change?.toList.filterMap Change.added?).length = move.entry?.toList.length := by
  unfold entry?
  cases hc : move.change? with
  | none => simp [h]
  | some change => cases change <;> simp [h, Change.added?]

theorem Move.length_exit? {move : Move} {who : Nat} (h : move.who? = some who) :
    (move.change?.toList.filterMap Change.removed?).length = move.exit?.toList.length := by
  unfold exit?
  cases hc : move.change? with
  | none => simp [h]
  | some change => cases change <;> simp [h, Change.removed?]

theorem Squared.gains_step {who : Nat} {past : List Move} {move : Move} {old new : Thread}
    (ho : Squared who past old) (hn : Squared who (past ++ [move]) new)
    (hown : move.who? = some who) : new.gains = old.gains + move.entry?.toList.length := by
  rw [← hn.gains_eq, changesBy_own past hown, List.filterMap_append, List.length_append,
    ho.gains_eq, Move.length_entry? hown]

theorem Squared.losses_step {who : Nat} {past : List Move} {move : Move} {old new : Thread}
    (ho : Squared who past old) (hn : Squared who (past ++ [move]) new)
    (hown : move.who? = some who) :
    new.losses + move.report = old.losses + move.exit?.toList.length := by
  have hnew := hn.losses_eq
  rw [changesBy_own past hown, List.filterMap_append, List.length_append, ho.losses_eq,
    Move.length_exit? hown, reportedBy_own past hown] at hnew
  omega

structure Totalled (past : List Move) (threads : List Thread) : Prop where
  entered : (entries past).length = (threads.map Thread.gains).sum
  gone : (exits past).length = (threads.map Thread.losses).sum + (past.map Move.report).sum

namespace Totalled

variable {past : List Move} {threads : List Thread}

theorem start (h : Totalled past threads) {demand : Demand} {new : Thread}
    (hn : Squared threads.length (past ++ [.starts demand]) new)
    (hnone : ∀ move ∈ past ++ [.starts demand], move.who? ≠ some threads.length) :
    Totalled (past ++ [.starts demand]) (threads ++ [new]) := by
  have hgains := hn.gains_eq
  have hlosses := hn.losses_eq
  rw [changesBy_eq_nil hnone] at hgains hlosses
  rw [reportedBy_eq_zero hnone] at hlosses
  have hentries : entries (past ++ [.starts demand]) = entries past := by
    rw [entries_append]
    exact List.append_nil _
  have hexits : exits (past ++ [.starts demand]) = exits past := by
    rw [exits_append]
    exact List.append_nil _
  constructor
  · rw [hentries, List.map_append, List.sum_append, List.map_singleton, List.sum_singleton,
      ← hgains]
    exact h.entered
  · have hzero : new.losses = 0 := hlosses.symm
    rw [hexits, List.map_append, List.sum_append, List.map_singleton, List.sum_singleton, hzero,
      List.map_append, List.sum_append]
    exact h.gone

theorem step (h : Totalled past threads) {who : Nat} {move : Move} {old new : Thread}
    (hold : threads[who]? = some old) (ho : Squared who past old)
    (hn : Squared who (past ++ [move]) new) (hown : move.who? = some who) :
    Totalled (past ++ [move]) (threads.set who new) := by
  have hgains := ho.gains_step hn hown
  have hlosses := ho.losses_step hn hown
  have hsumGains := sum_map_set Thread.gains hold new
  have hsumLosses := sum_map_set Thread.losses hold new
  have hentered := h.entered
  have hgone := h.gone
  constructor
  · rw [entries_append, List.length_append]
    omega
  · rw [exits_append, List.length_append, List.map_append, List.sum_append, List.map_singleton,
      List.sum_singleton]
    omega

theorem append {σ : Type} {rules : Rules σ} {terms : Terms} {guard : Guard} {x x' : σ}
    {threads' : List Thread} {move : Move} {late : Bool} (h : Totalled past threads)
    (hdone : ∀ move ∈ past, move.who? ≠ some threads.length)
    (hbefore : ∀ who thread, threads[who]? = some thread → Squared who past thread)
    (hafter : ∀ who thread, threads'[who]? = some thread → Squared who (past ++ [move]) thread)
    (hstep : Threads.Step rules terms guard x threads move late x' threads') :
    Totalled (past ++ [move]) threads' := by
  cases hstep with
  | starts demand =>
    refine h.start (hafter _ _ List.getElem?_concat_length) fun move hmem => ?_
    rcases List.mem_append.mp hmem with hmem | hmem
    · exact hdone move hmem
    · obtain rfl := List.mem_singleton.mp hmem
      exact nofun
  | goes who hold hturns =>
    refine h.step hold (hbefore who _ hold) (hafter who _ ?_) hturns.who?
    rw [List.getElem?_set_self (List.getElem?_eq_some_iff.mp hold).1]

end Totalled

theorem MemorySystem.Plays.totalled {terms : Terms} {guard : Guard} {start s : MemorySystem}
    {trace : List MemoryTransition}
    (h : start.Plays terms guard trace s) (hm : start.store.Consistent) (hs : start.threads = [])
    (hh : ∀ demand ∈ s.threads.map (·.demand), ∀ request, demand ≠ .http request) :
    Totalled (trace.map (·.move)) s.threads := by
  induction h with
  | nil =>
    rw [hs]
    exact ⟨rfl, rfl⟩
  | @snoc trace s s' move run step ih =>
    have hdemands : ∀ demand ∈ s.threads.map (·.demand), ∀ request, demand ≠ .http request :=
      fun demand hmem => hh demand ((Threads.Step.demands step).subset hmem)
    have hsquared : ∀ who thread, s'.threads[who]? = some thread →
        Squared who (trace.map (·.move) ++ [move]) thread := by
      intro who thread hw
      have hsq := (run.snoc step).squared hm hs hw
        (hh thread.demand (List.mem_map_of_mem (List.mem_of_getElem? hw)))
      rwa [List.map_append] at hsq
    rw [List.map_append]
    have hdone : ∀ move ∈ trace.map (·.move), move.who? ≠ some s.threads.length := by
      simpa using run.who?_ne (Nat.le_refl _)
    refine (ih hdemands).append hdone (fun who thread hw => ?_) hsquared step
    exact run.squared hm hs hw
      (hdemands thread.demand (List.mem_map_of_mem (List.mem_of_getElem? hw)))

theorem sum_gains (threads : List Thread) :
    (threads.map Thread.gains).sum = (threads.filterMap Thread.registered?).length := by
  induction threads with
  | nil => rfl
  | cons thread rest ih =>
    rw [List.map_cons, List.sum_cons, ih, List.filterMap_cons, Thread.gains]
    cases thread.registered? with
    | none => exact Nat.zero_add _
    | some host => exact Nat.add_comm _ _

theorem sum_losses (threads : List Thread) :
    (threads.map Thread.losses).sum
      = (threads.filterMap Thread.deleted?).length + (threads.map (·.stage.tally)).sum := by
  induction threads with
  | nil => rfl
  | cons thread rest ih =>
    rw [List.map_cons, List.sum_cons, ih, List.filterMap_cons, Thread.losses, List.map_cons,
      List.sum_cons]
    cases thread.deleted? with
    | none =>
      show 0 + thread.stage.tally + _ = (rest.filterMap Thread.deleted?).length + _
      omega
    | some host =>
      rw [List.length_cons]
      show 1 + _ + _ = _
      omega

/-! ## Every host accounted for -/

theorem countP_exits (who : Nat) (moves : List Move) :
    (exits moves).countP (·.1 = who)
      = ((changesBy who moves).filterMap Change.removed?).length := by
  induction moves with
  | nil => rfl
  | cons move rest ih =>
    unfold exits changesBy doneBy at ih ⊢
    rw [List.filterMap_cons, List.filterMap_cons]
    by_cases hown : move.who? = some who
    · cases hc : move.change? with
      | none => simp [Move.exit?, Move.own?, hown, hc, ih]
      | some change => cases change <;>
          simp [List.filterMap_cons, Move.exit?, Move.own?, Change.removed?, hown, hc, ih]
    · cases hx : move.exit? with
      | none => simp [Move.own?, hown, ih]
      | some exit =>
        obtain ⟨other, host⟩ := exit
        have hother : other ≠ who := by
          rintro rfl
          rw [Move.exit?_eq_some, Move.own?, if_neg hown] at hx
          cases hx
        simp [Move.own?, hown, hother, ih]

theorem Change.mem_filterMap_added? {changes : List Change} {host : Host} :
    host ∈ changes.filterMap Change.added? ↔ .added host ∈ changes := by
  rw [List.mem_filterMap]
  constructor
  · rintro ⟨change, hmem, he⟩
    cases change <;> cases he
    exact hmem
  · exact fun hmem => ⟨_, hmem, rfl⟩

theorem Change.mem_filterMap_removed? {changes : List Change} {host : Host} :
    host ∈ changes.filterMap Change.removed? ↔ .removed host ∈ changes := by
  rw [List.mem_filterMap]
  constructor
  · rintro ⟨change, hmem, he⟩
    cases change <;> cases he
    exact hmem
  · exact fun hmem => ⟨_, hmem, rfl⟩

namespace Squared

variable {who : Nat} {past : List Move} {thread : Thread}

theorem mem_entries_iff (h : Squared who past thread) {host : Host} :
    (who, host) ∈ entries past ↔ thread.registered? = some host := by
  rw [mem_entries, ← Change.mem_filterMap_added?, h.registered, Option.mem_toList]

theorem mem_exits_iff (h : Squared who past thread) (hl : thread.demand ≠ .listLive)
    {host : Host} : (who, host) ∈ exits past ↔ thread.deleted? = some host := by
  rw [mem_exits, ← Change.mem_filterMap_removed?, h.deleted hl, Option.mem_toList]

end Squared

theorem MemorySystem.Plays.thread_of_change {terms : Terms} {guard : Guard} {start s : MemorySystem}
    {trace : List MemoryTransition} (h : start.Plays terms guard trace s) {who : Nat}
    {change : Change} (hc : change ∈ changesBy who (trace.map (·.move))) :
    ∃ thread, s.threads[who]? = some thread := by
  obtain ⟨move, hmem, hchange⟩ := List.mem_filterMap.mp hc
  obtain ⟨b, hb, rfl⟩ := List.mem_map.mp hmem
  have hown : b.move.who? = some who := by
    rw [Move.own?] at hchange
    split at hchange
    · assumption
    · cases hchange
  have hlt : who < s.threads.length := by
    rw [← Nat.not_le]
    exact fun hle => h.who?_ne hle b hb hown
  exact ⟨_, List.getElem?_eq_getElem hlt⟩

/-- How the hosts that entered a store in a run have left it, or are still there. -/
structure Accounted (moves : List Move) (s : MemorySystem) : Prop where
  /-- A host enters by the registration that is answered with it. -/
  entered_iff : ∀ who host, (who, host) ∈ entries moves ↔
    ∃ thread, s.threads[who]? = some thread ∧ thread.registered? = some host
  /-- No two registrations are answered with one host, and none enters twice. -/
  entered_once : ((entries moves).map (·.2.id)).Nodup
  /-- A host leaves by a deletion that is answered with it, or by a listing. -/
  gone_by : ∀ who host, (who, host) ∈ exits moves → ∃ thread, s.threads[who]? = some thread ∧
    (thread.deleted? = some host ∨ thread.demand = .listLive)
  /-- A deletion that is answered with a host has removed it. -/
  deleted : ∀ who thread host, s.threads[who]? = some thread → thread.deleted? = some host →
    (who, host) ∈ exits moves
  /-- A listing counts the hosts that left by it: those reported to the log, and those it has still
  to report. -/
  counted : ∀ who thread, s.threads[who]? = some thread → thread.demand = .listLive →
    (exits moves).countP (·.1 = who) = reportedBy who moves + thread.stage.tally
  /-- No host leaves twice. -/
  gone_once : ((exits moves).map (·.2.id)).Nodup
  /-- A host that entered is stored, or exactly one demand removed it. -/
  fate : ∀ who host, (who, host) ∈ entries moves →
    ((∃ h, s.store.Holds h ∧ host.Kept h) ∧ ∀ x ∈ exits moves, x.2.id ≠ host.id) ∨
      ((∀ h, s.store.Holds h → h.id ≠ host.id) ∧ ∃! x, x ∈ exits moves ∧ host.Kept x.2)
  /-- What is stored or has left did enter. -/
  entered : ∀ h, s.store.Holds h ∨ (∃ who, (who, h) ∈ exits moves) →
    ∃ who host, (who, host) ∈ entries moves ∧ host.Kept h
  balance : s.store.hosts.length + (s.threads.filterMap Thread.deleted?).length +
    ((moves.map Move.report).sum + (s.threads.map (·.stage.tally)).sum)
      = (s.threads.filterMap Thread.registered?).length

theorem MemorySystem.Plays.accounted {terms : Terms} {guard : Guard} {start s : MemorySystem}
    {trace : List MemoryTransition} (h : start.Plays terms guard trace s) (hm : start.store = {})
    (hs : start.threads = []) (hd : (drawnIds trace).Nodup)
    (hh : ∀ demand ∈ s.threads.map (·.demand), ∀ request, demand ≠ .http request) :
    Accounted (trace.map (·.move)) s := by
  have hcons : start.store.Consistent := hm ▸ Memory.consistent_empty
  have hl := (h.ledger hm hd).1
  have ht := h.totalled hcons hs hh
  have hsquared : ∀ who thread, s.threads[who]? = some thread →
      Squared who (trace.map (·.move)) thread := fun who thread hw =>
    h.squared hcons hs hw (hh thread.demand (List.mem_map_of_mem (List.mem_of_getElem? hw)))
  refine ⟨fun who host => ⟨fun he => ?_, ?_⟩, hl.entered_once, fun who host hx => ?_,
    fun who thread host hw hdel => ?_, fun who thread hw hlist => ?_, hl.gone_once,
    fun who host he => ?_, fun g hg => ?_, ?_⟩
  · obtain ⟨thread, hw⟩ := h.thread_of_change (mem_entries.mp he)
    exact ⟨thread, hw, (hsquared who thread hw).mem_entries_iff.mp he⟩
  · rintro ⟨thread, hw, hreg⟩
    exact (hsquared who thread hw).mem_entries_iff.mpr hreg
  · obtain ⟨thread, hw⟩ := h.thread_of_change (mem_exits.mp hx)
    refine ⟨thread, hw, ?_⟩
    by_cases hlist : thread.demand = .listLive
    · exact .inr hlist
    · exact .inl (((hsquared who thread hw).mem_exits_iff hlist).mp hx)
  · refine ((hsquared who thread hw).mem_exits_iff fun hlist => ?_).mpr hdel
    rw [Thread.deleted?, hlist] at hdel
    cases hdel
  · rw [countP_exits, (hsquared who thread hw).evicted hlist, Nat.add_comm]
  · rcases hl.stored_or_gone _ he with ⟨g, hg, hkept⟩ | ⟨x, hx, hkept⟩
    · refine .inl ⟨⟨g, hg, hkept⟩, fun x hx => ?_⟩
      rw [← hkept.id_eq]
      exact hl.not_both g hg x hx
    · refine .inr ⟨fun g hg hid => ?_, x, ⟨hx, hkept⟩, fun y ⟨hy, hkepty⟩ => ?_⟩
      · exact hl.not_both g hg x hx (hkept.id_eq.trans hid.symm)
      · exact List.inj_on_of_nodup_map hl.gone_once hy hx (hkepty.id_eq.trans hkept.id_eq.symm)
  · rcases hg with hg | ⟨who, hg⟩
    · obtain ⟨e, he, hkept⟩ := hl.stored_entered g hg
      exact ⟨e.1, e.2, he, hkept⟩
    · obtain ⟨e, he, hkept⟩ := hl.gone_entered _ hg
      exact ⟨e.1, e.2, he, hkept⟩
  · have hbalance := hl.balance
    rw [ht.entered, ht.gone, sum_gains, sum_losses] at hbalance
    omega

/-! ### A host that three demands try to remove -/

/-- What becomes `idleHost`: the seed of its code is the first draw, and its id the second one. -/
def idleCandidate : Candidate :=
  ⟨"10.0.0.1", idleHost.port,
    JoinCode.ofSeed (Seed.ofDraw minuteStart ({} : Draws).draw.1), minuteStart⟩

abbrev idleDraws : Draws := ({} : Draws).draw.2

theorem idle_code : idleCandidate.code = idleHost.code := by decide +kernel

theorem idle_id : idleDraws.draw.1.simple = idleHost.id := by decide +kernel

theorem insert_idle {draws : Draws} {id : String} (hid : draws.draw.1.simple = id) :
    Memory.run {} draws (.insert idleCandidate)
      = (some { idleHost with id }, Memory.add {} { idleHost with id }, draws.draw.2) := by
  have hhost : idleCandidate.host draws.draw.1.simple = { idleHost with id } := by
    rw [Candidate.host, idle_code, hid]
    rfl
  show (some (idleCandidate.host draws.draw.1.simple), Memory.mk
    (Index.set [] draws.draw.1.simple (idleCandidate.host draws.draw.1.simple))
    (Index.set [] idleCandidate.code draws.draw.1.simple) none, _) = _
  rw [hhost, idle_code, hid]
  rfl

theorem idle_insert : Memory.run {} idleDraws (.insert idleCandidate)
    = (some idleHost, Memory.add {} idleHost, idleDraws.draw.2) :=
  insert_idle idle_id

def idleDemand : Demand := .register ⟨some "10.0.0.1", some idleHost.port⟩

theorem idleDemand_interaction : ∃ read draw next,
    idleDemand.interaction minuteTerms {} = .readClock read ∧ read minuteStart = .draw draw ∧
      draw ({} : Draws).draw.1 = .call (.insert idleCandidate) 2000 next ∧
      ∀ host, next (.answered (some host)) = .log (.registered host) (.done (.host host)) :=
  ⟨_, _, _, rfl, rfl, rfl, fun _ => rfl⟩

/-- Two listings have found the host expired, and a demand to delete it has started. -/
def contested : MemorySystem where
  store := Memory.add {} idleHost
  draws := idleDraws.draw.2
  threads :=
    [⟨idleDemand, .going (.log (.registered idleHost) (.done (.host idleHost)))⟩,
      ⟨.listLive, .evicting [(idleHost, none)] (report [] 1)⟩,
      ⟨.listLive, .evicting [(idleHost, none)] (report [] 1)⟩,
      ⟨.deleteById idleHost.id,
        .going (Demand.interaction minuteTerms {} (.deleteById idleHost.id))⟩]

theorem contested_plays : ∃ trace,
    MemorySystem.Plays minuteTerms {} { store := {} } trace contested ∧
    drawnIds trace = [idleHost.id] := by
  have hlist : (Memory.add {} idleHost).list = [idleHost] := List.mergeSort_singleton idleHost
  obtain ⟨read, draw, next, hread, hdraw, hnext, hstored⟩ := idleDemand_interaction
  have h0 : MemorySystem.Plays minuteTerms {} { store := {} } [] { store := {} } := .nil
  have h1 := h0.snoc (.starts _ idleDemand)
  rw [hread] at h1
  have h2 := h1.snoc (.goes 0 rfl (.reads _ minuteStart))
  rw [hdraw] at h2
  have h3 := h2.snoc (.goes 0 rfl (.draws _ ⟨rfl, rfl⟩))
  rw [hnext] at h3
  have h4 := h3.snoc (.asks 0 rfl)
  rw [idle_insert, hstored] at h4
  have h5 := h4.snoc (.starts _ .listLive)
  have h6 := h5.snoc (.asks 1 rfl)
  simp only [Memory.run, hlist] at h6
  have h7 := h6.snoc (.starts _ .listLive)
  have h8 := h7.snoc (.asks 2 rfl)
  simp only [Memory.run, hlist] at h8
  have h9 := h8.snoc (.goes 1 rfl (.reads _ minuteEnd))
  have h10 := h9.snoc (.goes 1 rfl (.sweeps _ _ _))
  have h11 := h10.snoc (.goes 2 rfl (.reads _ minuteEnd))
  have h12 := h11.snoc (.goes 2 rfl (.sweeps _ _ _))
  refine ⟨_, h12.snoc (.starts _ (.deleteById idleHost.id)), ?_⟩
  simp only [drawnIds, List.flatMap_append, List.flatMap_singleton, MemoryTransition.ids,
    List.nil_append, List.append_nil]
  rw [← idle_id]
  rfl

/-- One of the listings removes the host and reports it. The eviction of the other one and the
deletion come too late. -/
theorem accounted_contested : ∃ trace s,
    MemorySystem.Plays minuteTerms {} { store := {} } trace s ∧ (drawnIds trace).Nodup ∧
      (∀ demand ∈ s.threads.map (·.demand), ∀ request, demand ≠ .http request) ∧
      s.threads.filterMap Thread.registered? = [idleHost] ∧
      s.threads[2]? = some ⟨.listLive, .going (.done (.hosts []))⟩ ∧
      s.threads[3]? = some ⟨.deleteById idleHost.id, .going (.done (.refused .notFound))⟩ ∧
      s.store.hosts = [] ∧ Accounted (trace.map (·.move)) s := by
  obtain ⟨trace, h0, hids⟩ := contested_plays
  have h1 := h0.snoc (.goes 2 rfl (.evicts _ 0 false rfl rfl))
  have h2 := h1.snoc (.goes 1 rfl (.evicts _ 0 false rfl rfl))
  have h3 := h2.snoc (.asks 3 rfl)
  have h4 := h3.snoc (.goes 2 rfl (.returns _ (by decide)))
  have h5 := h4.snoc (.goes 2 rfl (.notes _ _))
  have hhttp : ∀ demand ∈ [idleDemand, .listLive, .listLive, .deleteById idleHost.id],
      ∀ request, demand ≠ .http request := by
    intro demand hmem request he
    subst he
    simp [idleDemand] at hmem
  refine ⟨_, _, h5, ?_, hhttp, rfl, rfl, rfl, rfl, h5.accounted rfl rfl ?_ hhttp⟩
  all_goals
    unfold drawnIds at hids ⊢
    simp only [List.flatMap_append, List.flatMap_singleton, MemoryTransition.ids, List.append_nil]
    rw [hids]
    exact List.nodup_singleton _

end Rendezvous
