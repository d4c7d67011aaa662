import Rendezvous.Proofs.Identity
import Rendezvous.Proofs.Readback
import Rendezvous.Proofs.Registration
import Rendezvous.Proofs.Segments

/-!
# The shape of what is stored

`Backing.Records` lists the hosts that a backing has stored, whether they can be read back or not. A
turn adds at most the candidate of an attempt, under an id that was drawn, and refreshes or removes
others. So in every chronicle each stored host was inserted in one of its steps: `Host.Inserted`.
From that `BackingSystem.Chronicle.stored_shaped` reads what its code, its id and its address look
like.
-/

namespace Rendezvous

/-! ## What calls leave -/

def Outcome.Adds (h : Host) : {command : Command} → Outcome command → Prop
  | .insert _, .answered added => added = some h
  | _, _ => False

/-- What is stored after the call was stored before, refreshed at most since, or the call added
it. -/
def Outcome.Leaves {command : Command} (outcome : Outcome command) (hosts hosts' : List Host) :
    Prop :=
  ∀ h ∈ hosts', (∃ old ∈ hosts, old.Kept h) ∨ outcome.Adds h

theorem Outcome.leaves_of_subset {command : Command} {hosts hosts' : List Host}
    (h : hosts' ⊆ hosts) (outcome : Outcome command) : outcome.Leaves hosts hosts' :=
  fun host hh => .inl ⟨host, h hh, .refl host⟩

theorem Outcome.leaves_self {command : Command} (outcome : Outcome command) (hosts : List Host) :
    outcome.Leaves hosts hosts :=
  Outcome.leaves_of_subset (List.Subset.refl hosts) outcome

/-! ### In memory -/

/-- Only an insert adds a host. -/
theorem Command.adds_of_change? {command : Command} {answer : command.Answer} {h : Host}
    (hc : command.change? answer = some (.added h)) : (Outcome.answered answer).Adds h := by
  cases command with
  | insert candidate =>
    obtain ⟨host, hhost, he⟩ := Option.map_eq_some_iff.mp hc
    cases he
    exact hhost
  | deleteById | deleteByCode | touch =>
    obtain ⟨host, -, he⟩ := Option.map_eq_some_iff.mp hc
    cases he
  | findById | findByCode | list | settings | merge => cases hc

theorem Memory.leaves_run {m : Memory} (hm : m.Consistent) (draws : Draws) (command : Command) :
    (Outcome.answered (m.run draws command).1).Leaves m.hosts.values
      (m.run draws command).2.1.hosts.values := by
  intro h hh
  have hheld := (Memory.mem_values_iff (hm.run draws command)).mp hh
  rcases (Memory.takes_run hm draws command).makes.kept_or_added hheld with ⟨old, hold, hkept⟩ | hc
  · exact .inl ⟨old, (Memory.mem_values_iff hm).mpr hold, hkept⟩
  · exact .inr (Command.adds_of_change? hc)

/-! ### In a database -/

namespace Database.Records

variable {db : Database} {hosts : List Host} (hr : db.Records hosts)

include hr

theorem subset_deleteFound (found : Except Fault (Option Host)) :
    ∃ hosts', (db.deleteFound found).2.Records hosts' ∧ hosts' ⊆ hosts := by
  match found with
  | .error _ | .ok none => exact ⟨hosts, hr, List.Subset.refl hosts⟩
  | .ok (some host) => exact ⟨_, hr.erase host.id, List.filter_sublist.subset⟩

theorem leaves_run (draws : Draws) (command : Command) :
    ∃ hosts', (db.run draws command).2.1.Records hosts' ∧
      (Outcome.ofResult (db.run draws command).1).Leaves hosts hosts' := by
  cases command with
  | insert candidate =>
    rcases hr.insert_cases candidate draws.draw.1.simple with he | ⟨he, hafter⟩
    · simp only [Database.run, he]
      exact ⟨hosts, hr, Outcome.leaves_self _ hosts⟩
    · refine ⟨_, hafter, fun h hh => ?_⟩
      rcases List.mem_append.mp hh with hold | hnew
      · exact .inl ⟨h, hold, .refl h⟩
      · obtain rfl := List.mem_singleton.mp hnew
        simp only [Database.run, he]
        exact .inr rfl
  | deleteById id =>
    obtain ⟨hosts', hafter, hsub⟩ := hr.subset_deleteFound (db.findById id)
    exact ⟨hosts', hafter, Outcome.leaves_of_subset hsub _⟩
  | deleteByCode code =>
    obtain ⟨hosts', hafter, hsub⟩ := hr.subset_deleteFound (db.findByCode code)
    exact ⟨hosts', hafter, Outcome.leaves_of_subset hsub _⟩
  | touch id moment =>
    simp only [Database.run, touch_of_hosts hr.rows]
    split
    · refine ⟨_, hr.refresh id moment, fun h hh => .inl ?_⟩
      obtain ⟨old, hold, rfl⟩ := List.mem_map.mp hh
      refine ⟨old, hold, ?_⟩
      unfold refreshed
      split
      · rfl
      · exact .refl old
    · exact ⟨hosts, hr, Outcome.leaves_self _ hosts⟩
  | merge patch =>
    refine ⟨hosts, ?_, Outcome.leaves_self _ hosts⟩
    simp only [Database.run, Database.merge]
    split
    · exact hr
    · exact ⟨hr.rows, hr.ids, hr.codes⟩
  | findById | findByCode | list | settings =>
    exact ⟨hosts, hr, Outcome.leaves_self _ hosts⟩

end Database.Records

/-! ## Backings -/

namespace Backing

/-- The hosts that are stored: the values of the index in memory, or one for each row of the table.
No write that is still in the queue of a worker will be carried out. -/
def Records (hosts : List Host) : Backing → Prop
  | .memory store => store.Consistent ∧ store.hosts.values = hosts
  | .database worker _ => worker.Forsaken ∧ worker.database.Records hosts

variable {b : Backing} {hosts : List Host}

theorem host_drawn {candidate : Candidate} {draws : Draws} {h : Host}
    (hrun : (b.run draws (.insert candidate)).1 = .answered (some h)) :
    ∃ id : Uuid, h = candidate.host id.simple := by
  obtain ⟨id, -, hid⟩ := List.mem_map.mp (insert_drawn hrun)
  exact ⟨id, hid ▸ host_of_insert hrun⟩

theorem Records.run (h : b.Records hosts) (draws : Draws) (command : Command) :
    ∃ hosts', (b.run draws command).2.1.Records hosts' ∧
      (b.run draws command).1.Leaves hosts hosts' := by
  match b with
  | .memory store =>
    obtain ⟨hc, rfl⟩ := h
    exact ⟨_, ⟨hc.run draws command, rfl⟩, Memory.leaves_run hc draws command⟩
  | .database worker false =>
    simp only [Backing.run, Worker.perform]
    split
    · exact ⟨hosts, h, Outcome.leaves_self _ hosts⟩
    · obtain ⟨hosts', hafter, hleaves⟩ := h.2.leaves_run draws command
      exact ⟨hosts', ⟨h.1, hafter⟩, hleaves⟩
  | .database worker true =>
    simp only [Backing.run]
    split
    · next worker' hsubmit =>
      unfold Worker.submit at hsubmit
      split at hsubmit
      · cases hsubmit
        exact ⟨hosts, h, Outcome.leaves_self _ hosts⟩
      · cases hsubmit
    · next caller worker' hsubmit =>
      obtain ⟨hleft, hsame⟩ := h.1.hangUp hsubmit
      exact ⟨hosts, ⟨hleft, hsame ▸ h.2⟩, Outcome.leaves_self _ hosts⟩

theorem Records.park (h : b.Records hosts) : b.park.Records hosts := by
  cases b <;> exact h

theorem Records.release (h : b.Records hosts) (draws : Draws) :
    (b.release draws).1.Records hosts := by
  match b with
  | .memory store => exact h
  | .database worker parked =>
    obtain ⟨hleft, hsame, -⟩ := h.1.handleAll worker.queue.length draws
    exact ⟨hleft, hsame ▸ h.2⟩

theorem Records.shutdown (h : b.Records hosts) (draws : Draws) :
    (b.shutdown draws).2.1.Records hosts := by
  match b with
  | .memory store => exact h
  | .database worker parked =>
    obtain ⟨hleft, hsame⟩ := h.1.submitStop
    have hstop : (Backing.database worker.submitStop.2 parked).Records hosts :=
      ⟨hleft, hsame ▸ h.2⟩
    unfold Backing.shutdown
    dsimp only
    split
    · exact hstop
    · exact hstop.release draws

end Backing

theorem BackingSystem.IsNew.records {start : BackingSystem} (h : start.IsNew) :
    start.backing.Records [] := by
  cases h with
  | memory draws => exact ⟨Memory.consistent_empty, rfl⟩
  | database draws =>
    have hleft : ({ database := {} } : Worker).Forsaken := fun caller command hmem => nomatch hmem
    exact ⟨hleft, Database.stocks_empty.records⟩

/-! ## What demands recall -/

/-- In the step the demand was given the identifier that it goes on with. -/
def Transition.Draws (t : Transition) (who : Nat) (uuid : Uuid) : Prop :=
  ∃ demand next, t.before.threads[who]? = some ⟨demand, .going (.draw next)⟩ ∧
    t.after.threads[who]? = some ⟨demand, .going (next uuid)⟩

/-- What a demand last read from the clock, and what it last drew. -/
inductive Recalls (who : Nat) : List Transition → Option Instant → Option Uuid → Prop
  | nothing : Recalls who [] none none
  | reads {trace : List Transition} {t : Transition} {read : Option Instant} {drawn : Option Uuid}
    {now : Instant} (h : Recalls who trace read drawn) (hm : t.move? = some (.reads who now)) :
    Recalls who (trace ++ [t]) (some now) drawn
  | draws {trace : List Transition} {t : Transition} {read : Option Instant} {drawn : Option Uuid}
    {uuid : Uuid} (h : Recalls who trace read drawn) (hm : t.move? = some (.draws who))
    (hd : t.Draws who uuid) : Recalls who (trace ++ [t]) read (some uuid)
  | other {trace : List Transition} {t : Transition} {read : Option Instant} {drawn : Option Uuid}
    (h : Recalls who trace read drawn) (hreads : ∀ now, t.move? ≠ some (.reads who now))
    (hdraws : t.move? ≠ some (.draws who)) : Recalls who (trace ++ [t]) read drawn

section

variable {who : Nat} {read : Option Instant} {drawn : Option Uuid} {trace : List Transition}
  {t : Transition}

theorem Transition.Spares.recalls (hspares : t.Spares who) (h : Recalls who trace read drawn) :
    Recalls who (trace ++ [t]) read drawn :=
  h.other (fun _ he => hspares _ he rfl) fun he => hspares _ he rfl

theorem Recalls.of_fresh (h : ∀ move ∈ movesOf trace, move.who? ≠ some who) :
    Recalls who trace none none := by
  induction trace using List.reverseRecOn with
  | nil => exact .nothing
  | append_singleton trace t ih =>
    have hspares : t.Spares who := fun move hmove => h move (mem_movesOf (by simp) hmove)
    exact hspares.recalls (ih fun move hmem => h move (mem_movesOf_append hmem t))

theorem Transition.Turns.recalls {feigned : Bool} {demand : Demand} {old new : Stage} {move : Move}
    (h : t.Turns feigned who demand old move new) {may : Course → Query → Prop}
    {ends : Course → Reply → Prop} {c : Course} (hrecalls : Recalls who trace c.read c.drawn)
    (hold : old.Keeps may ends c) :
    ∃ c', Recalls who (trace ++ [t]) c'.read c'.drawn ∧ new.Keeps may ends c' := by
  obtain ⟨hm, hbefore, hafter, hturns⟩ := h
  have hsame (hreads : ∀ now, move ≠ .reads who now) (hdraws : move ≠ .draws who) :
      Recalls who (trace ++ [t]) c.read c.drawn :=
    hrecalls.other (fun now he => hreads now (Option.some.inj (hm.symm.trans he)))
      fun he => hdraws (Option.some.inj (hm.symm.trans he))
  obtain ⟨c', hstep, hnew⟩ := hturns.keeps hold
  generalize hx : (t.after.backing, t.after.draws) = x at hturns
  generalize t.late = late at hturns hstep
  cases hturns with
  | @draws next uuid _ hdrawn =>
    exact ⟨{ c with drawn := some uuid }, hrecalls.draws hm ⟨demand, next, hbefore, hafter⟩,
      hold.1, hold.2.2 uuid⟩
  | reads next now =>
    cases hstep
    exact ⟨{ c with read := some now }, hrecalls.reads hm, hnew⟩
  | _ =>
    cases hstep
    refine ⟨_, ?_, hnew⟩
    exact hsame (fun _ => nofun) nofun

theorem BackingSystem.Runs.recalls {terms : Terms} {guard : Guard} {feigned : Bool}
    {start s : BackingSystem}
    (h : start.Runs terms guard feigned trace s) (hs : start.threads = []) {thread : Thread}
    (hw : s.threads[who]? = some thread) : ∃ c, Recalls who trace c.read c.drawn ∧
      thread.stage.Keeps (thread.demand.May terms guard) (thread.demand.Ends guard) c := by
  refine h.threads (P := fun who demand trace stage => ∃ c, Recalls who trace c.read c.drawn ∧
    stage.Keeps (demand.May terms guard) (demand.Ends guard) c) ?_ ?_ ?_ hs hw
  · exact fun who demand trace _ hnone => ⟨{}, .of_fresh hnone, rfl, demand.keeps terms guard⟩
  · rintro who demand trace t move old new hturns ⟨c, hrecalls, hkeeps⟩
    exact hturns.recalls hrecalls hkeeps
  · rintro who demand trace t stage hspares ⟨c, hrecalls, hkeeps⟩
    exact ⟨c, hspares.recalls hrecalls, hkeeps⟩

end

/-! ## Where stored hosts come from -/

/-- The host is the candidate of an attempt of the demand, inserted under an id that was drawn. -/
inductive Move.Inserts (who : Nat) (read : Option Instant) (drawn : Option Uuid) (h : Host) :
    Move → Prop
  | asks {candidate : Candidate} (stems : candidate.Stems read drawn) (id : Uuid)
    (he : h = candidate.host id.simple) :
    Inserts who read drawn h (.asks who (.insert candidate) (some h))

theorem Stage.Turns.kept_or_inserts {who : Nat} {old new : Stage} {move : Move}
    {x x' : Backing × Draws} {late feigned : Bool}
    (h : old.Turns (Backing.rules feigned) who x move late x' new) {hosts : List Host}
    (hb : x.1.Records hosts) {terms : Terms} {guard : Guard} {demand : Demand}
    {ends : Course → Reply → Prop} {c : Course}
    (hkeeps : old.Keeps (demand.May terms guard) ends c) :
    ∃ hosts', x'.1.Records hosts' ∧
      ∀ h ∈ hosts', (∃ old ∈ hosts, old.Kept h) ∨ move.Inserts who c.read c.drawn h := by
  have hstill : ∀ h ∈ hosts, (∃ old ∈ hosts, old.Kept h) ∨ move.Inserts who c.read c.drawn h :=
    fun h hh => .inl ⟨h, hh, .refl h⟩
  cases h with
  | draws next hdrawn =>
    have hsame : x'.1 = x.1 := hdrawn
    exact ⟨hosts, hsame ▸ hb, hstill⟩
  | @asks command limit next late answer hrun =>
    obtain ⟨hosts', hafter, hleaves⟩ := hb.run x.2 command
    refine ⟨hosts', hafter, fun h hh => (hleaves h hh).imp_right fun hadds => ?_⟩
    have hran : (x.1.run x.2 command).1 = .answered answer := hrun
    rw [hran] at hadds
    cases command with
    | insert candidate =>
      obtain rfl : answer = some h := hadds
      obtain ⟨id, he⟩ := Backing.host_drawn hran
      exact .asks hkeeps.2.1.allows.call_cases.2.1 id he
    | _ => cases hadds
  | @fails command limit next hmiss =>
    obtain ⟨hosts', hafter, hleaves⟩ := hb.run x.2 command
    refine ⟨hosts', hafter, fun h hh => (hleaves h hh).imp_right fun hadds => ?_⟩
    have hmissed : (x.1.run x.2 command).1.IsMiss := hmiss
    generalize (x.1.run x.2 command).1 = outcome at hadds hmissed
    cases outcome with
    | answered answer => cases hmissed
    | failed | timedOut => cases command <;> cases hadds
  | @evicts slots host next i late answer hslot hrun =>
    obtain ⟨hosts', hafter, hleaves⟩ := hb.run x.2 (.deleteById host.id)
    exact ⟨hosts', hafter, fun h hh => (hleaves h hh).imp_right nofun⟩
  | @stalls slots host next i hslot hmiss =>
    obtain ⟨hosts', hafter, hleaves⟩ := hb.run x.2 (.deleteById host.id)
    exact ⟨hosts', hafter, fun h hh => (hleaves h hh).imp_right nofun⟩
  | reads | notes | misses | sweeps | spares | returns => exact ⟨hosts, hb, hstill⟩

/-- A demand has inserted the host in an attempt, and it was refreshed at most since: its code comes
from the seed of what the demand had last read from the clock and of what it had last drawn. -/
inductive Host.Inserted (h : Host) (draw : Uuid) (trace : List Transition) : Prop
  | intro {past later : List Transition} {t : Transition} {who : Nat} {first : Host}
    (split : trace = past ++ t :: later)
    (recalls : Recalls who past (some h.createdAt) (some draw))
    (move : t.move? = some
      (.asks who (.insert ⟨h.address, h.port, h.code, h.createdAt⟩) (some first)))
    (kept : first.Kept h)
    (code : h.code = JoinCode.ofSeed (Seed.ofDraw h.createdAt draw))
    (id : ∃ id : Uuid, h.id = id.simple)
    (address : isBlankText h.address = false)

namespace Host.Inserted

variable {h : Host} {draw : Uuid} {trace : List Transition}

theorem append (hi : h.Inserted draw trace) (t : Transition) : h.Inserted draw (trace ++ [t]) := by
  cases hi with
  | @intro past later u who first split recalls move kept code id address =>
    have hsplit : trace ++ [t] = past ++ u :: (later ++ [t]) := by
      rw [split, List.append_assoc, List.cons_append]
    exact .intro hsplit recalls move kept code id address

theorem kept (hi : h.Inserted draw trace) {later : Host} (hk : h.Kept later) :
    later.Inserted draw trace := by
  cases hi with
  | intro split recalls move kept code id address =>
    rw [hk]
    exact .intro split recalls move (hk ▸ kept.trans hk) code id address

theorem of_inserts {who : Nat} {read : Option Instant} {drawn : Option Uuid} {move : Move}
    (hm : move.Inserts who read drawn h) (hrecalls : Recalls who trace read drawn) {t : Transition}
    (ht : t.move? = some move) : ∃ draw, h.Inserted draw (trace ++ [t]) := by
  cases hm with
  | asks stems id he =>
    cases stems with
    | @intro draw address code =>
      subst he
      exact ⟨draw, .intro rfl hrecalls ht (.refl _) code ⟨id, rfl⟩ address⟩

end Host.Inserted

namespace BackingSystem.Runs

variable {terms : Terms} {guard : Guard} {feigned : Bool} {start s : BackingSystem}
  {trace : List Transition}

/-- Every host that is stored was inserted in a step of the run. -/
theorem inserted (h : start.Runs terms guard feigned trace s) (hnew : start.IsNew) :
    ∃ hosts, s.backing.Records hosts ∧ ∀ host ∈ hosts, ∃ draw, host.Inserted draw trace := by
  induction h with
  | nil => exact ⟨[], hnew.records, fun host hh => nomatch hh⟩
  | @snoc trace move? late s s' run step ih =>
    obtain ⟨hosts, hrecords, hinserted⟩ := ih
    have hstill (t : Transition) : ∀ host ∈ hosts, ∃ draw, host.Inserted draw (trace ++ [t]) :=
      fun host hh => (hinserted host hh).imp fun _ hi => hi.append t
    cases step with
    | acts hstep =>
      cases hstep with
      | starts demand => exact ⟨hosts, hrecords, hstill _⟩
      | goes who hold hturns =>
        -- What an insert in this step stems from is what its demand recalls of the steps before.
        obtain ⟨c, hrecalls, hkeeps⟩ := run.recalls hnew.threads hold
        obtain ⟨hosts', hafter, hfrom⟩ := hturns.kept_or_inserts hrecords hkeeps
        refine ⟨hosts', hafter, fun host hh => ?_⟩
        rcases hfrom host hh with ⟨old, hmem, hkept⟩ | hinserts
        · exact (hstill _ old hmem).imp fun _ hi => hi.kept hkept
        · exact Host.Inserted.of_inserts hinserts hrecalls rfl
    | parks => exact ⟨hosts, hrecords.park, hstill _⟩
    | releases => exact ⟨hosts, hrecords.release s.draws, hstill _⟩
    | stops => exact ⟨hosts, hrecords.shutdown s.draws, hstill _⟩

end BackingSystem.Runs

/-! ## The shape of keys and addresses -/

/-- The text stands for itself as the parameter of any path, whatever the request. -/
structure Api.Addresses (text : String) : Prop extends Api.IsSegment text where
  fits : ∀ (row : Row) (r : Request), r.method = row.method → r.target = row.target text →
    row.Fits r text text
  resource : ∀ (row : Row) (r : Request), r.method = row.method → r.target = row.target text →
    resource? r.target = some (row.resource text)

theorem Api.IsSegment.addresses {text : String} (h : Api.IsSegment text) :
    Api.Addresses text where
  toIsSegment := h
  fits row _ hmethod htarget := h.fits row hmethod htarget
  resource row _ hmethod htarget := (h.fits row hmethod htarget).matches.resource fun _ => h.other

/-- What the host was inserted with, and how its keys and its address look. -/
structure Host.Shaped (h : Host) (draw : Uuid) (trace : List Transition) : Prop where
  inserted : h.Inserted draw trace
  code_eq : h.code = Hex.upper ((Sha256.digest (Seed.ofDraw h.createdAt draw)).take 3)
  /-- The start of the hash in small digits, put in capitals. -/
  code_chars : h.code.toList =
    ((Hex.lower (Sha256.digest (Seed.ofDraw h.createdAt draw))).toList.take 6).map Char.toUpper
  isJoinCode : IsJoinCode h.code
  isId : IsId h.id
  address : ∃ c ∈ h.address.toList, isBlank c = false
  byCode : Api.Addresses h.code
  byId : Api.Addresses h.id

theorem Host.Inserted.shaped {h : Host} {draw : Uuid} {trace : List Transition}
    (hi : h.Inserted draw trace) : h.Shaped draw trace := by
  have hinserted := hi
  cases hi with
  | intro split recalls move kept code id address =>
    obtain ⟨id, hid⟩ := id
    have hcode : IsJoinCode h.code := code ▸ JoinCode.isJoinCode _
    have hmarks : IsId h.id := hid ▸ id.isId
    refine ⟨hinserted, code, ?_, hcode, hmarks, ?_, hcode.isSegment.addresses,
      hmarks.isSegment.addresses⟩
    · rw [code, JoinCode.toList_ofSeed_lower]
    · simpa [isBlankText] using address

/-- Whatever was done since the store was empty: the hosts that it has now are shaped like this. -/
theorem BackingSystem.Chronicle.stored_shaped {terms : Terms} {guard : Guard}
    {start s : BackingSystem}
    {trace : List Transition} (h : start.Chronicle terms guard trace s) (hnew : start.IsNew) :
    ∃ hosts, s.backing.Records hosts ∧ ∀ host ∈ hosts, ∃ draw, host.Shaped draw trace := by
  obtain ⟨hosts, hrecords, hinserted⟩ := h.inserted hnew
  exact ⟨hosts, hrecords, fun host hh => (hinserted host hh).imp fun _ hi => hi.shaped⟩

/-! ### One host -/

theorem BackingSystem.stored_shaped_idle : ∃ trace,
    BackingSystem.Chronicle minuteTerms {} { backing := .memory {} } trace idleBackingSystem ∧
    BackingSystem.IsNew { backing := .memory {} } ∧ idleBackingSystem.backing.Records [idleHost] ∧
    ∃ draw, idleHost.Shaped draw trace := by
  obtain ⟨trace, hrun, -⟩ := leads_idleBackingSystem
  obtain ⟨hosts, hrecords, hshaped⟩ := hrun.stored_shaped (.memory {})
  obtain rfl : [idleHost] = hosts := hrecords.2
  exact ⟨trace, hrun, .memory {}, hrecords, hshaped idleHost (.head _)⟩

end Rendezvous
