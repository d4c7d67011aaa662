import Rendezvous.Proofs.Interleaving

/-!
# Runs over a backing

A `BackingSystem` is a backing, in memory or in a database, with the demands that are being met over
it. Its runs are told step by step: each move with the system before and after it. A demand may be
told that its deadline has passed although its call is carried out, which the step records; a worker
may be parked, released and stopped. In a `BackingSystem.Chronicle` calls may also be answered as if
there were nothing, in a `BackingSystem.Run` they are not. `BackingSystem.Runs.threads` leads from
what the turns of each demand keep to what every run keeps.
-/

namespace Rendezvous

/-- A backing runs the calls that reach it. Whatever is drawn. -/
def Backing.rules (feigned : Bool) : Rules (Backing × Draws) where
  draws x _ x' := x'.1 = x.1
  runs x command := x.1.run x.2 command
  feigned

/-- A backing, and the demands that are being met over it in the order of their start. -/
structure BackingSystem where
  backing : Backing
  draws : Draws := {}
  threads : List Thread := []

/-- A step of a run: the system before it, the move if a demand made one, whether it was late, and
the system after. -/
structure Transition where
  before : BackingSystem
  move? : Option Move
  late : Bool
  after : BackingSystem

def movesOf (trace : List Transition) : List Move := trace.filterMap (·.move?)

theorem movesOf_append (trace : List Transition) (t : Transition) :
    movesOf (trace ++ [t]) = movesOf trace ++ t.move?.toList :=
  filterMap_concat _ trace t

theorem movesOf_concat {trace : List Transition} {t : Transition} {move : Move}
    (h : t.move? = some move) :
    movesOf (trace ++ [t]) = movesOf trace ++ [move] := by
  rw [movesOf_append, h, Option.toList_some]

theorem mem_movesOf {trace : List Transition} {t : Transition} {move : Move} (ht : t ∈ trace)
    (hm : t.move? = some move) : move ∈ movesOf trace :=
  List.mem_filterMap.mpr ⟨t, ht, hm⟩

theorem mem_movesOf_append {trace : List Transition} {move : Move} (h : move ∈ movesOf trace)
    (t : Transition) :
    move ∈ movesOf (trace ++ [t]) := by
  rw [movesOf_append]
  exact List.mem_append_left _ h

structure Transition.Turns (feigned : Bool) (t : Transition) (who : Nat) (demand : Demand)
    (old : Stage) (move : Move) (new : Stage) : Prop where
  move? : t.move? = some move
  before : t.before.threads[who]? = some ⟨demand, old⟩
  after : t.after.threads[who]? = some ⟨demand, new⟩
  turns : old.Turns (Backing.rules feigned) who (t.before.backing, t.before.draws) move t.late
    (t.after.backing, t.after.draws) new

/-- The demand at a place makes no move in the step. -/
def Transition.Spares (t : Transition) (who : Nat) : Prop :=
  ∀ move, t.move? = some move → move.who? ≠ some who

namespace BackingSystem

variable (terms : Terms) (guard : Guard) (feigned : Bool)

/-- One step: a demand starts or takes a turn, or something happens to the worker. -/
inductive Moves (s : BackingSystem) : Option Move → (late : Bool) → BackingSystem → Prop
  | acts {move : Move} {late : Bool} {x : Backing × Draws} {threads : List Thread}
    (h : Threads.Step (Backing.rules feigned) terms guard (s.backing, s.draws) s.threads move late
      x threads) : Moves s (some move) late ⟨x.1, x.2, threads⟩
  | parks : Moves s none false { s with backing := s.backing.park }
  | releases :
    Moves s none false ⟨(s.backing.release s.draws).1, (s.backing.release s.draws).2, s.threads⟩
  | stops : Moves s none false
    ⟨(s.backing.shutdown s.draws).2.1, (s.backing.shutdown s.draws).2.2, s.threads⟩

/-- The steps of a run, from the first to the last. -/
inductive Runs (start : BackingSystem) : List Transition → BackingSystem → Prop
  | nil : Runs start [] start
  | snoc {trace : List Transition} {move? : Option Move} {late : Bool} {s s' : BackingSystem}
    (run : Runs start trace s) (step : s.Moves terms guard feigned move? late s') :
    Runs start (trace ++ [⟨s, move?, late, s'⟩]) s'

/-- A run in which every answer comes from the backing. -/
abbrev Run : BackingSystem → List Transition → BackingSystem → Prop := Runs terms guard false

/-- A run in which calls may also be answered as if there were nothing. -/
abbrev Chronicle : BackingSystem → List Transition → BackingSystem → Prop := Runs terms guard true

variable {terms : Terms} {guard : Guard} {feigned : Bool} {start s s' : BackingSystem}
  {trace : List Transition}

namespace Moves

theorem starts (s : BackingSystem) (demand : Demand) :
    s.Moves terms guard feigned (some (.starts demand)) false
      { s with threads := s.threads ++ [⟨demand, .going (demand.interaction terms guard)⟩] } :=
  .acts (.starts demand)

theorem goes {demand : Demand} {old new : Stage} {move : Move} {late : Bool}
    {x : Backing × Draws} (who : Nat) (h : s.threads[who]? = some ⟨demand, old⟩)
    (hturns : old.Turns (Backing.rules feigned) who (s.backing, s.draws) move late x new) :
    s.Moves terms guard feigned (some move) late ⟨x.1, x.2, s.threads.set who ⟨demand, new⟩⟩ :=
  .acts (.goes who h hturns)

theorem asks {demand : Demand} {command : Command} {limit : Nat}
    {next : Outcome command → Interaction Reply} {answer : command.Answer} {b : Backing}
    {draws : Draws} (who : Nat)
    (h : s.threads[who]? = some ⟨demand, .going (.call command limit next)⟩)
    (hrun : s.backing.run s.draws command = (.answered answer, b, draws)) :
    s.Moves terms guard feigned (some (.asks who command answer)) false
      ⟨b, draws, s.threads.set who ⟨demand, .going (next (.answered answer))⟩⟩ := by
  have hstep : s.Moves terms guard feigned _ false _ :=
    .goes who h (.asks limit next false (congrArg Prod.fst hrun))
  rw [show (Backing.rules feigned).runs (s.backing, s.draws) command = _ from hrun] at hstep
  exact hstep

theorem step {move : Move} {late : Bool} (h : s.Moves terms guard feigned (some move) late s') :
    Threads.Step (Backing.rules feigned) terms guard (s.backing, s.draws) s.threads move late
      (s'.backing, s'.draws) s'.threads := by
  cases h with
  | acts hstep => exact hstep

end Moves

namespace Runs

theorem split (h : start.Runs terms guard feigned trace s) {past later : List Transition}
    {t : Transition}
    (htrace : trace = past ++ t :: later) : start.Runs terms guard feigned past t.before ∧
      t.before.Moves terms guard feigned t.move? t.late t.after := by
  induction h generalizing later with
  | nil => cases past <;> cases htrace
  | @snoc trace move? late s s' run step ih =>
    rcases List.eq_nil_or_concat later with rfl | ⟨later, last, rfl⟩
    · obtain ⟨rfl, hlast⟩ := List.append_inj' htrace rfl
      cases hlast
      exact ⟨run, step⟩
    · rw [List.concat_eq_append, ← List.cons_append, ← List.append_assoc] at htrace
      exact ih (List.append_inj' htrace rfl).1

/-- Who has not started has made no move. -/
theorem who?_ne (h : start.Runs terms guard feigned trace s) {who : Nat}
    (hw : s.threads.length ≤ who) : ∀ move ∈ movesOf trace, move.who? ≠ some who := by
  induction h with
  | nil => intro move hmem; cases hmem
  | snoc run step ih =>
    intro move hmem
    rw [movesOf_append, List.mem_append, Option.mem_toList] at hmem
    cases step with
    | acts hstep =>
      obtain ⟨hpast, hmove⟩ := hstep.fresh hw
      rcases hmem with hmem | ⟨⟨⟩⟩
      · exact ih hpast move hmem
      · exact hmove
    | parks | releases | stops => exact ih hw move (hmem.resolve_right nofun)

/-- What holds of a demand that starts, and is kept by its own turns and in the steps in which it
makes no move, holds of every demand of a run. -/
theorem threads {P : Nat → Demand → List Transition → Stage → Prop}
    (hinit : ∀ who demand trace, .starts demand ∈ movesOf trace →
      (∀ move ∈ movesOf trace, move.who? ≠ some who) →
      P who demand trace (.going (demand.interaction terms guard)))
    (hown : ∀ who demand trace t move old new, t.Turns feigned who demand old move new →
      P who demand trace old → P who demand (trace ++ [t]) new)
    (hother : ∀ who demand trace t stage, t.Spares who → P who demand trace stage →
      P who demand (trace ++ [t]) stage)
    (h : start.Runs terms guard feigned trace s) (hs : start.threads = []) {who : Nat}
    {thread : Thread} (hw : s.threads[who]? = some thread) :
    P who thread.demand trace thread.stage := by
  induction h generalizing who thread with
  | nil =>
    rw [hs] at hw
    cases hw
  | @snoc trace move? late s s' run step ih =>
    cases step with
    | @acts move _ x threads hstep =>
      refine hstep.each (P := fun who demand stage => P who demand trace stage)
        (Q := fun who demand stage =>
          P who demand (trace ++ [⟨s, some move, late, ⟨x.1, x.2, threads⟩⟩]) stage)
        ?_ ?_ ?_ (fun _ _ => ih) hw
      · rintro demand rfl
        refine hinit _ demand _ ?_ fun earlier hmem => ?_
        · rw [movesOf_append]
          exact List.mem_append_right _ (.head _)
        · rw [movesOf_append, List.mem_append, Option.mem_toList] at hmem
          rcases hmem with hmem | ⟨⟨⟩⟩
          · exact run.who?_ne (Nat.le_refl _) earlier hmem
          · exact nofun
      · exact fun who demand old new hbefore hafter hold hturns =>
          hown who demand trace _ move old new ⟨rfl, hbefore, hafter, hturns⟩ hold
      · exact fun who demand stage hstage hne =>
          hother who demand trace _ stage (fun _ he => Option.some.inj he ▸ hne) hstage
    | parks | releases | stops =>
      refine hother who _ trace _ _ (fun move he => ?_) (ih hw)
      cases he

theorem started (h : start.Runs terms guard feigned trace s) (hs : start.threads = []) {who : Nat}
    {thread : Thread} (hw : s.threads[who]? = some thread) :
    .starts thread.demand ∈ movesOf trace :=
  h.threads (P := fun _ demand trace _ => .starts demand ∈ movesOf trace)
    (fun _ _ _ hstarts _ => hstarts) (fun _ _ _ t _ _ _ _ hpast => mem_movesOf_append hpast t)
    (fun _ _ _ t _ _ hpast => mem_movesOf_append hpast t) hs hw

end Runs

/-- An empty store, and no demand yet. -/
inductive IsNew : BackingSystem → Prop
  | memory (draws : Draws) : IsNew { backing := .memory {}, draws }
  | database (draws : Draws) : IsNew { backing := .database { database := {} } false, draws }

theorem IsNew.threads (h : start.IsNew) : start.threads = [] := by
  cases h <;> rfl

end BackingSystem
end Rendezvous
