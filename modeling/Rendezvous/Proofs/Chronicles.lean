import Rendezvous.Proofs.Courses
import Rendezvous.Proofs.Stock

/-!
# Chronicles

In a chronicle from a backing whose hosts can be read, demands that were not made over HTTP lay down
only what can be read back, so that the hosts can be read all along, and `BackingSystem.Runs.makes`
says what each step makes of them. `BackingSystem.Runs.called` and `evicts_inv` tell what is known
of a call that is carried out.
-/

namespace Rendezvous

theorem Command.Stems.storable {command : Command} {read : Option Instant} {drawn : Option Uuid}
    (h : command.Stems read drawn) (hread : ∀ now, read = some now → now.Storable) :
    command.Storable := by
  cases command with
  | insert candidate =>
    cases h with
    | intro => exact hread _ rfl
  | touch id moment => exact hread moment h
  | _ => trivial

/-! ## Demands whose calls have ended -/

/-- A demand whose last call is neither an insert nor a listing, and which owes the log no note of
it, is over. -/
theorem Interaction.Keeps.replies {terms : Terms} {guard : Guard} {demand : Demand} {c : Course}
    {i : Interaction Reply} (h : i.Keeps (demand.May terms guard) (demand.Ends guard) c)
    (hh : ∀ request, demand ≠ .http request) {command : Command} {outcome : Outcome command}
    (hended : c.ended = some ⟨command, outcome⟩)
    (hinsert : ∀ candidate, command ≠ .insert candidate)
    (hlist : command ≠ .list) (hlogs : ∀ event, ¬ outcome.Logs event) :
    ∃ reply, i = .done reply ∧ demand.Tells guard c reply := by
  have hsettled (hu : c.Unsettled) : False := by
    obtain ⟨candidate, he⟩ := hu.insert_of_ended hended
    exact hinsert candidate he
  have hlisted {snapshot : List Host} (he : c.ended = some ⟨.list, .answered snapshot⟩) : False :=
    hlist (congrArg Sigma.fst (Option.some.inj (hended.symm.trans he)))
  obtain ⟨reply, rfl, hends⟩ := h.eq_done fun q hmay => by
    cases hmay.allows with
    | attempt a hu | draw a hu | renew id hu => exact hsettled hu
    | call asks stems hu => exact hsettled hu
    | gaveUp a hu => exact hsettled hu
    | weigh ended | evict ended => exact hlisted ended
    | note ended logs =>
      cases hended.symm.trans ended
      exact hlogs _ logs
    | http | complaint => exact hh _ rfl
  exact ⟨reply, rfl, hends.tells⟩

/-- A demand whose last call has decided it replies as that call says, or tells of its trouble. -/
theorem Demand.Tells.of_settled {guard : Guard} {demand : Demand} {c : Course} {reply : Reply}
    (h : demand.Tells guard c reply) (hh : ∀ request, demand ≠ .http request) {command : Command}
    {outcome : Outcome command} (hended : c.ended = some ⟨command, outcome⟩)
    (hinsert : ∀ candidate, command ≠ .insert candidate) (hlist : command ≠ .list) :
    (∃ answer, outcome = .answered answer ∧ command.reply? answer = some reply) ∨
      ∃ trouble, reply = .refused (.unavailable trouble) ∧ outcome.IsMiss ∧
        (outcome = .timedOut → trouble.isLate = true) := by
  have hsettled (hu : c.Unsettled) : False := by
    obtain ⟨candidate, he⟩ := hu.insert_of_ended hended
    exact hinsert candidate he
  cases h with
  | refused hu | authorized token hu => exact (hsettled hu).elim
  | @unavailable _ _ _ _ trouble ended miss late =>
    cases hended.symm.trans ended
    exact .inr ⟨trouble, rfl, miss, late⟩
  | @answered _ _ _ answer _ asks ended decides =>
    cases hended.symm.trans ended
    exact .inl ⟨answer, rfl, decides⟩
  | listed ended =>
    exact absurd (congrArg Sigma.fst (Option.some.inj (hended.symm.trans ended))) hlist
  | http | turnedAway => exact absurd rfl (hh _)

/-! ## Turns over a backing -/

namespace Stage

variable {who : Nat} {x x' : Backing × Draws} {old new : Stage} {move : Move} {late feigned : Bool}

/-- What a turn makes of the hosts, when what is laid down can be read back. -/
theorem Turns.makes (h : old.Turns (Backing.rules feigned) who x move late x' new) (hb : x.1.Sound)
    (hs : ∀ command limit next, old = .going (.call command limit next) → command.Storable) :
    x'.1.Sound ∧ Change.Makes x.1.Holds x'.1.Holds move.change? := by
  have hstill : ∀ {b : Backing}, b.Sound ∧ b.Holds = x.1.Holds →
      b.Sound ∧ Change.Makes x.1.Holds b.Holds none :=
    fun ⟨hsound, hsame⟩ => ⟨hsound, .still fun h => iff_of_eq (congrFun hsame h)⟩
  cases h with
  | draws next hdrawn =>
    have hsame : x'.1 = x.1 := hdrawn
    exact hstill ⟨hsame ▸ hb, congrArg _ hsame⟩
  | asks limit next late hrun =>
    obtain ⟨-, hmakes, hsound⟩ := (hb.serves _ (hs _ limit next rfl) x.2).of_answered hrun
    exact ⟨hsound, hmakes⟩
  | fails limit next hmiss => exact hstill ((hb.serves _ (hs _ limit next rfl) x.2).of_isMiss hmiss)
  | evicts next i late hslot hrun =>
    obtain ⟨-, hmakes, hsound⟩ := (hb.serves (.deleteById _) trivial x.2).of_answered hrun
    exact ⟨hsound, hmakes⟩
  | stalls next i hslot hmiss =>
    exact hstill ((hb.serves (.deleteById _) trivial x.2).of_isMiss hmiss)
  | reads | notes | misses | sweeps | spares | returns => exact hstill ⟨hb, rfl⟩

end Stage

/-- The demands were not made over HTTP, and the clock stayed in the years 0000 to 9999. -/
structure Ordinary (moves : List Move) : Prop where
  direct : ∀ request, .starts (.http request) ∉ moves
  storable : ∀ who now, .reads who now ∈ moves → now.Storable

theorem Ordinary.of_append {moves more : List Move} (h : Ordinary (moves ++ more)) :
    Ordinary moves :=
  ⟨fun request hmem => h.direct request (List.mem_append_left _ hmem),
    fun who now hmem => h.storable who now (List.mem_append_left _ hmem)⟩

namespace BackingSystem
namespace Runs

variable {terms : Terms} {guard : Guard} {feigned : Bool} {start s : BackingSystem}
  {trace : List Transition}

theorem direct (h : start.Runs terms guard feigned trace s) (hs : start.threads = [])
    (ho : Ordinary (movesOf trace)) {who : Nat} {thread : Thread}
    (hw : s.threads[who]? = some thread) : ∀ request, thread.demand ≠ .http request :=
  fun request he => ho.direct request (he ▸ h.started hs hw)

theorem storable (h : start.Runs terms guard feigned trace s) (hs : start.threads = [])
    (ho : Ordinary (movesOf trace)) {who : Nat} {demand : Demand} {command : Command} {limit : Nat}
    {next : Outcome command → Interaction Reply}
    (hw : s.threads[who]? = some ⟨demand, .going (.call command limit next)⟩) :
    command.Storable := by
  obtain ⟨missed, c, hrun, hkeeps, -⟩ := h.course hs hw
  exact hkeeps.2.1.allows.call_cases.2.1.storable fun now hread =>
    ho.storable who now (hrun.mem_of_read hread)

theorem makes_step (h : start.Runs terms guard feigned trace s) (hs : start.threads = [])
    (ho : Ordinary (movesOf trace)) (hb : s.backing.Sound) {move? : Option Move} {late : Bool}
    {s' : BackingSystem} (step : s.Moves terms guard feigned move? late s') : s'.backing.Sound ∧
      Change.Makes s.backing.Holds s'.backing.Holds (move?.bind Move.change?) := by
  cases step with
  | acts hstep =>
    cases hstep with
    | starts demand => exact ⟨hb, .still fun _ => .rfl⟩
    | goes who hw hturns =>
      refine hturns.makes hb fun command limit next he => ?_
      subst he
      exact h.storable hs ho hw
  | parks =>
    obtain ⟨hsound, hsame⟩ := hb.park
    exact ⟨hsound, .still fun h => iff_of_eq (congrFun hsame h)⟩
  | releases =>
    obtain ⟨hsound, hsame, -⟩ := hb.release s.draws
    exact ⟨hsound, .still fun h => iff_of_eq (congrFun hsame h)⟩
  | stops =>
    obtain ⟨hsound, hsame, -⟩ := hb.shutdown s.draws
    exact ⟨hsound, .still fun h => iff_of_eq (congrFun hsame h)⟩

/-- The hosts can be read all along a chronicle. -/
theorem sound (h : start.Runs terms guard feigned trace s) (hs : start.threads = [])
    (hb : start.backing.Sound) (ho : Ordinary (movesOf trace)) : s.backing.Sound := by
  induction h with
  | nil => exact hb
  | snoc run step ih =>
    rw [movesOf_append] at ho
    exact (run.makes_step hs ho.of_append (ih ho.of_append) step).1

variable {past later : List Transition} {t : Transition}

theorem before (h : start.Runs terms guard feigned trace s) (hs : start.threads = [])
    (hb : start.backing.Sound) (ho : Ordinary (movesOf trace))
    (htrace : trace = past ++ t :: later) :
    start.Runs terms guard feigned past t.before ∧
      t.before.Moves terms guard feigned t.move? t.late t.after ∧
      Ordinary (movesOf past) ∧ t.before.backing.Sound := by
  obtain ⟨run, step⟩ := h.split htrace
  rw [htrace, movesOf, List.filterMap_append] at ho
  exact ⟨run, step, ho.of_append, run.sound hs hb ho.of_append⟩

theorem makes (h : start.Runs terms guard feigned trace s) (hs : start.threads = [])
    (hb : start.backing.Sound) (ho : Ordinary (movesOf trace))
    (htrace : trace = past ++ t :: later) :
    Change.Makes t.before.backing.Holds t.after.backing.Holds (t.move?.bind Move.change?) := by
  obtain ⟨run, step, hpast, hsound⟩ := h.before hs hb ho htrace
  exact (run.makes_step hs hpast hsound step).2

end Runs

/-! ## Calls that are carried out -/

/-- The demand is being met at a place of the system. -/
def Meets (s : BackingSystem) (who : Nat) (demand : Demand) : Prop :=
  ∃ stage, s.threads[who]? = some ⟨demand, stage⟩

/-- What is left to do for the demand at a place of the system. -/
def Left (s : BackingSystem) (who : Nat) (i : Interaction Reply) : Prop :=
  ∃ demand, s.threads[who]? = some ⟨demand, .going i⟩

/-- In a step a call of a demand is carried out: the demand asked for the call as its course stood,
and goes on from how the call ended for it. -/
structure Called (terms : Terms) (guard : Guard) (past : List Transition) (t : Transition)
    (who : Nat) (command : Command) (answer : command.Answer) (demand : Demand) (c : Course)
    (rest : Interaction Reply) : Prop where
  meets : t.before.Meets who demand
  direct : ∀ request, demand ≠ .http request
  asks : demand.Asks guard command
  stems : command.Stems c.read c.drawn
  read : ∀ now ∈ c.read, .reads who now ∈ movesOf past
  left : t.after.Left who rest
  keeps : rest.Keeps (demand.May terms guard) (demand.Ends guard)
    (c.hears (.heard answer t.late : Outcome command))

namespace Runs

variable {terms : Terms} {guard : Guard} {feigned : Bool} {start s : BackingSystem}
  {trace past later : List Transition} {t : Transition}

/-- A call that is carried out was asked for by its demand, and its answer fits the hosts. -/
theorem called (h : start.Runs terms guard feigned trace s) (hs : start.threads = [])
    (hb : start.backing.Sound) (ho : Ordinary (movesOf trace)) (htrace : trace = past ++ t :: later)
    {who : Nat} {command : Command} {answer : command.Answer}
    (hm : t.move? = some (.asks who command answer)) :
    command.Fits t.before.backing.Holds answer ∧
      ∃ demand c rest, Called terms guard past t who command answer demand c rest := by
  obtain ⟨run, step, hpast, hsound⟩ := h.before hs hb ho htrace
  rw [hm] at step
  obtain ⟨demand, limit, next, hw, hran, -, hafter⟩ := step.step.asks_inv
  obtain ⟨hfits, -⟩ :=
    (hsound.serves _ (run.storable hs hpast hw) t.before.draws).of_answered hran
  obtain ⟨missed, c, hrun, ⟨-, hmay, hkeeps⟩, -⟩ := run.course hs hw
  have hdirect := run.direct hs hpast hw
  refine ⟨hfits, demand, c, next (.heard answer t.late), ⟨_, hw⟩, hdirect, hmay.allows.asks hdirect,
    hmay.allows.call_cases.2.1, fun now hread => hrun.mem_of_read hread, ⟨demand, ?_⟩, hkeeps _⟩
  rw [hafter, List.getElem?_set_self (List.getElem?_eq_some_iff.mp hw).1]

/-- An eviction that is carried out is one of a listing, and its answer fits the hosts. -/
theorem evicts_inv (h : start.Runs terms guard feigned trace s) (hs : start.threads = [])
    (hb : start.backing.Sound) (ho : Ordinary (movesOf trace)) (htrace : trace = past ++ t :: later)
    {who : Nat} {host : Host} {answer : Option Host}
    (hm : t.move? = some (.evicts who host answer)) :
    (Command.deleteById host.id).Fits t.before.backing.Holds answer ∧
      t.before.Meets who .listLive := by
  obtain ⟨run, step, hpast, hsound⟩ := h.before hs hb ho htrace
  rw [hm] at step
  obtain ⟨demand, slots, next, i, hw, hslot, hran⟩ := step.step.evicts_inv
  obtain ⟨hfits, -⟩ := (hsound.serves (.deleteById host.id) trivial t.before.draws).of_answered hran
  obtain ⟨missed, c, hrun, ⟨⟨before, hmay, -⟩, -⟩, -⟩ := run.course hs hw
  refine ⟨hfits, ?_⟩
  cases hmay.allows with
  | evict => exact ⟨_, hw⟩
  | http => exact absurd rfl (run.direct hs hpast hw _)

end Runs
end BackingSystem

/-! ## Ids that are drawn -/

/-- The ids that a move drew between two states of the draws; only an insert draws any. -/
def Move.idsDrawn (d d' : Draws) : Move → List String
  | .asks _ (.insert _) _ => d.idsUntil d'
  | _ => []

def Transition.ids (t : Transition) : List String :=
  t.move?.elim [] (Move.idsDrawn t.before.draws t.after.draws)

def idsDrawn (trace : List Transition) : List String := trace.flatMap Transition.ids

theorem idsDrawn_append (trace : List Transition) (t : Transition) :
    idsDrawn (trace ++ [t]) = idsDrawn trace ++ t.ids := by
  simp [idsDrawn]

namespace BackingSystem

/-! ## Chronicles of demands one after the other -/

/-- A chronicle of these moves, in which these ids are drawn, leads to the system. -/
def Leads (terms : Terms) (guard : Guard) (start : BackingSystem) (moves : List Move)
    (ids : List String) (s : BackingSystem) : Prop :=
  ∃ trace, start.Chronicle terms guard trace s ∧ movesOf trace = moves ∧ idsDrawn trace = ids

namespace Leads

variable {terms : Terms} {guard : Guard} {start s s' : BackingSystem} {moves : List Move}
  {ids : List String} {demand : Demand} {b b' : Backing} {d d' : Draws}

theorem nil : Leads terms guard start [] [] start := ⟨[], .nil, rfl, rfl⟩

theorem step (h : Leads terms guard start moves ids s) {move : Move} {late : Bool}
    (hstep : s.Moves terms guard true (some move) late s') :
    Leads terms guard start (moves ++ [move]) (ids ++ move.idsDrawn s.draws s'.draws) s' := by
  obtain ⟨trace, hrun, rfl, rfl⟩ := h
  exact ⟨_, hrun.snoc hstep, movesOf_append _ _, idsDrawn_append _ _⟩

theorem starts (h : Leads terms guard start moves ids s) (demand : Demand) :
    Leads terms guard start (moves ++ [.starts demand]) ids
      ⟨s.backing, s.draws, s.threads ++ [⟨demand, .going (demand.interaction terms guard)⟩]⟩ := by
  simpa [Move.idsDrawn] using h.step (.starts s demand)

theorem goes (front back : List Thread) {old new : Stage} {move : Move} {late : Bool}
    {x : Backing × Draws}
    (h : Leads terms guard start moves ids ⟨b, d, front ++ ⟨demand, old⟩ :: back⟩)
    (hturns : old.Turns (Backing.rules true) front.length (b, d) move late x new) :
    Leads terms guard start (moves ++ [move]) (ids ++ move.idsDrawn d x.2)
      ⟨x.1, x.2, front ++ ⟨demand, new⟩ :: back⟩ := by
  have hw : (front ++ ⟨demand, old⟩ :: back)[front.length]? = some ⟨demand, old⟩ := by simp
  have hstep := h.step (.goes front.length hw hturns)
  rw [List.set_append_right _ _ (Nat.le_refl _), Nat.sub_self, List.set_cons_zero] at hstep
  exact hstep

theorem asks (front back : List Thread) {command : Command} {limit : Nat}
    {next : Outcome command → Interaction Reply} {answer : command.Answer}
    (h : Leads terms guard start moves ids
      ⟨b, d, front ++ ⟨demand, .going (.call command limit next)⟩ :: back⟩)
    (hrun : b.run d command = (.answered answer, b', d')) :
    Leads terms guard start (moves ++ [.asks front.length command answer])
      (ids ++ Move.idsDrawn d d' (.asks front.length command answer))
      ⟨b', d', front ++ ⟨demand, .going (next (.answered answer))⟩ :: back⟩ := by
  have hturns : (Stage.going (.call command limit next)).Turns (Backing.rules true) front.length
      (b, d) (.asks front.length command answer) false _ (.going (next (.answered answer))) :=
    .asks limit next false (congrArg Prod.fst hrun)
  rw [show (Backing.rules true).runs (b, d) command = _ from hrun] at hturns
  exact h.goes front back hturns

theorem reads (front back : List Thread) {next : Instant → Interaction Reply}
    (h : Leads terms guard start moves ids
      ⟨b, d, front ++ ⟨demand, .going (.readClock next)⟩ :: back⟩) (now : Instant) :
    Leads terms guard start (moves ++ [.reads front.length now]) ids
      ⟨b, d, front ++ ⟨demand, .going (next now)⟩ :: back⟩ := by
  simpa [Move.idsDrawn] using h.goes front back (.reads next now)

theorem draws (front back : List Thread) {next : Uuid → Interaction Reply}
    (h : Leads terms guard start moves ids ⟨b, d, front ++ ⟨demand, .going (.draw next)⟩ :: back⟩)
    (uuid : Uuid) (d' : Draws) : Leads terms guard start (moves ++ [.draws front.length]) ids
      ⟨b, d', front ++ ⟨demand, .going (next uuid)⟩ :: back⟩ := by
  have hturns : (Stage.going (.draw next)).Turns (Backing.rules true) front.length (b, d)
    (.draws front.length) false (b, d') (.going (next uuid)) := .draws next rfl
  simpa [Move.idsDrawn] using h.goes front back hturns

end Leads
end BackingSystem
end Rendezvous
