import Rendezvous.Store.Worker

/-!
# Writes of callers that gave up

The worker takes a request from its queue, tests whether its caller still waits, carries it out and
sends the result. `Bench.Step` lets callers queue commands, and deadlines pass, between any two of
these. A write whose caller gave up is carried out exactly if the test came first, and then the
caller was told of a failure that was none.
-/

namespace Rendezvous

/-- What the worker is busy with. -/
inductive Hand
  | free
  | taken (caller : Nat) (command : Command)
  /-- The caller was found to be waiting, or the command is no write. -/
  | cleared (caller : Nat) (command : Command)
  | done (caller : Nat) (command : Command) (result : Result command)

/-- A worker in the middle of its work. -/
structure Bench where
  worker : Worker
  hand : Hand := .free
  draws : Draws := {}
  /-- Callers that were sent a result while they waited. -/
  answered : List Nat := []

inductive Turn
  | queues (caller : Nat) (command : Command)
  /-- The deadline passes: the caller is told that its call timed out. -/
  | expires (caller : Nat)
  | takes (caller : Nat) (command : Command)
  | passesOver (caller : Nat)
  | clears (caller : Nat) (command : Command)
  | performs (caller : Nat) (command : Command)
  | sends (caller : Nat)
  | stops

namespace Bench

/-- The caller has neither a result nor given up. -/
def Waits (b : Bench) (caller : Nat) : Prop :=
  caller < b.worker.callers ∧ caller ∉ b.worker.gone ∧ caller ∉ b.answered

inductive Step : Bench → Turn → Bench → Prop
  | queues {b : Bench} {caller : Nat} {worker : Worker} (command : Command)
    (h : b.worker.submit command = (some caller, worker)) :
    Step b (.queues caller command) { b with worker }
  | expires {b : Bench} {caller : Nat} (h : b.Waits caller) :
    Step b (.expires caller) { b with worker := b.worker.hangUp caller }
  | takes {b : Bench} {caller : Nat} {command : Command} {rest : List Errand}
    (hfree : b.hand = .free) (h : b.worker.queue = .request caller command :: rest) :
    Step b (.takes caller command)
      { b with worker := { b.worker with queue := rest }, hand := .taken caller command }
  | passesOver {b : Bench} {caller : Nat} {command : Command}
    (hhand : b.hand = .taken caller command) (h : b.worker.isAbandoned caller command = true) :
    Step b (.passesOver caller) { b with hand := .free }
  | clears {b : Bench} {caller : Nat} {command : Command}
    (hhand : b.hand = .taken caller command) (h : b.worker.isAbandoned caller command = false) :
    Step b (.clears caller command) { b with hand := .cleared caller command }
  | performs {b : Bench} {caller : Nat} {command : Command}
    (hhand : b.hand = .cleared caller command) :
    Step b (.performs caller command)
      { b with
        worker := { b.worker with database := (b.worker.database.run b.draws command).2.1 }
        hand := .done caller command (b.worker.database.run b.draws command).1
        draws := (b.worker.database.run b.draws command).2.2 }
  | sends {b : Bench} {caller : Nat} {command : Command} {result : Result command}
    (hhand : b.hand = .done caller command result) :
    Step b (.sends caller) { b with hand := .free, answered := caller :: b.answered }
  | stops {b : Bench} {rest : List Errand} (hfree : b.hand = .free)
    (h : b.worker.queue = .stop :: rest) :
    Step b .stops { b with worker := { b.worker with queue := [], stopped := true } }

inductive Run (start : Bench) : List Turn → Bench → Prop
  | nil : Run start [] start
  | snoc {turns : List Turn} {b b' : Bench} {turn : Turn} (run : Run start turns b)
    (step : Step b turn b') : Run start (turns ++ [turn]) b'

variable {start b b' : Bench} {turns : List Turn} {turn : Turn}

theorem Run.of_append {before after : List Turn} (h : Run start (before ++ after) b) :
    ∃ b₁, Run start before b₁ := by
  generalize hturns : before ++ after = turns at h
  induction h generalizing after with
  | nil =>
    obtain ⟨rfl, rfl⟩ := List.append_eq_nil_iff.mp hturns
    exact ⟨start, .nil⟩
  | @snoc early b b' turn run step ih =>
    rcases List.eq_nil_or_concat after with rfl | ⟨early', last, rfl⟩
    · rw [List.append_nil] at hturns
      exact ⟨_, hturns ▸ run.snoc step⟩
    · rw [List.concat_eq_append, ← List.append_assoc] at hturns
      exact ih (List.append_inj' hturns rfl).1

/-! ## Errands without interruption -/

/-- Handling the next errand is one run of the steps, when nothing comes between them. -/
theorem handleNext_run (hfree : b.hand = .free) (hqueue : b.worker.queue ≠ []) :
    ∃ turns b', Run b turns b' ∧ b'.hand = .free ∧
      b'.worker = (b.worker.handleNext b.draws).2.1 ∧
      b'.draws = (b.worker.handleNext b.draws).2.2 := by
  cases h : b.worker.queue with
  | nil => exact absurd h hqueue
  | cons errand rest =>
    cases errand with
    | stop =>
      refine ⟨_, _, .snoc .nil (.stops hfree h), hfree, ?_, ?_⟩
      · simp only [Worker.handleNext, h]
      · simp only [Worker.handleNext, h]
    | request caller command =>
      have h₁ := Run.snoc .nil (.takes hfree h)
      cases habandoned : { b.worker with queue := rest }.isAbandoned caller command with
      | true =>
        refine ⟨_, _, h₁.snoc (.passesOver rfl habandoned), rfl, ?_, ?_⟩
        · simp only [Worker.handleNext, h, habandoned, if_true]
        · simp only [Worker.handleNext, h, habandoned, if_true]
      | false =>
        have h₂ := h₁.snoc (.clears rfl habandoned)
        have h₃ := h₂.snoc (.performs rfl)
        refine ⟨_, _, h₃.snoc (.sends rfl), rfl, ?_, ?_⟩
        · simp only [Worker.handleNext, h, habandoned, Bool.false_eq_true, if_false]
        · simp only [Worker.handleNext, h, habandoned, Bool.false_eq_true, if_false]

/-! ## What was carried out -/

def performed (turns : List Turn) : List Command :=
  turns.filterMap fun
    | .performs _ command => some command
    | _ => none

def applied (db : Database) (draws : Draws) (commands : List Command) : Database × Draws :=
  commands.foldl (fun s command => (s.1.run s.2 command).2) (db, draws)

/-- The database is what the commands that were carried out make of it. -/
theorem database_eq_applied (h : Run start turns b) :
    (b.worker.database, b.draws) = applied start.worker.database start.draws (performed turns) := by
  induction h with
  | nil => rfl
  | snoc run step ih =>
    rw [performed, List.filterMap_append, applied, List.foldl_append]
    rw [performed, applied] at ih
    rw [← ih]
    cases step with
    | queues command h =>
      unfold Worker.submit at h
      split at h <;> cases h
      rfl
    | _ => rfl

/-! ## Callers that gave up -/

/-- The caller gave up, and its command has not passed the test. -/
def Barred (b : Bench) (caller : Nat) (command : Command) : Prop :=
  caller ∈ b.worker.gone ∧ b.hand ≠ .cleared caller command

theorem isAbandoned_of_gone {w : Worker} {caller : Nat} {command : Command}
    (hgone : caller ∈ w.gone) (hwrite : command.isWrite = true) :
    w.isAbandoned caller command = true := by
  rw [Worker.isAbandoned, hwrite, Bool.true_and, List.contains_iff_mem]
  exact hgone

section

variable {caller : Nat} {command : Command}

theorem Barred.step (hb : b.Barred caller command) (hwrite : command.isWrite = true)
    (h : Step b turn b') : b'.Barred caller command := by
  obtain ⟨hgone, hhand⟩ := hb
  cases h with
  | queues command' h =>
    unfold Worker.submit at h
    split at h <;> cases h
    exact ⟨hgone, hhand⟩
  | expires h => exact ⟨.tail _ hgone, hhand⟩
  | takes hfree h => exact ⟨hgone, fun he => by cases he⟩
  | passesOver hhand' h => exact ⟨hgone, fun he => by cases he⟩
  | clears hhand' h =>
    refine ⟨hgone, fun he => ?_⟩
    cases he
    rw [isAbandoned_of_gone hgone hwrite] at h
    cases h
  | performs hhand' => exact ⟨hgone, fun he => by cases he⟩
  | sends hhand' => exact ⟨hgone, fun he => by cases he⟩
  | stops hfree h => exact ⟨hgone, hhand⟩

theorem Barred.not_performs (hb : b.Barred caller command) :
    ¬ Step b (.performs caller command) b' := by
  intro h
  cases h with
  | performs hhand => exact hb.2 hhand

theorem clears_mem (h : Run start turns b) (hfree : start.hand = .free)
    (hhand : b.hand = .cleared caller command) : .clears caller command ∈ turns := by
  induction h with
  | nil =>
    rw [hfree] at hhand
    cases hhand
  | snoc run step ih =>
    rw [List.mem_append, List.mem_singleton]
    cases step with
    | queues command' h => exact .inl (ih hhand)
    | expires h => exact .inl (ih hhand)
    | takes hfree h => cases hhand
    | passesOver hhand' h => cases hhand
    | clears hhand' h =>
      cases hhand
      exact .inr rfl
    | performs hhand' => cases hhand
    | sends hhand' => cases hhand
    | stops hfree h => exact .inl (ih hhand)

theorem clears_mem_of_performs (h : Run start turns b) (hfree : start.hand = .free)
    (hp : .performs caller command ∈ turns) : .clears caller command ∈ turns := by
  induction h with
  | nil => cases hp
  | snoc run step ih =>
    rw [List.mem_append, List.mem_singleton] at hp ⊢
    rcases hp with hp | rfl
    · exact .inl (ih hp)
    · cases step with
      | performs hhand => exact .inl (clears_mem run hfree hhand)

theorem performs_mem_of_clears (h : Run start turns b) (hc : .clears caller command ∈ turns) :
    .performs caller command ∈ turns ∨ b.hand = .cleared caller command := by
  induction h with
  | nil => cases hc
  | snoc run step ih =>
    rw [List.mem_append, List.mem_singleton] at hc
    rw [List.mem_append, List.mem_singleton]
    rcases hc with hc | rfl
    · rcases ih hc with hp | hhand
      · exact .inl (.inl hp)
      · cases step with
        | queues command' h => exact .inr hhand
        | expires h => exact .inr hhand
        | takes hfree h => exact nomatch hfree.symm.trans hhand
        | passesOver hhand' h => exact nomatch hhand'.symm.trans hhand
        | clears hhand' h => exact nomatch hhand'.symm.trans hhand
        | performs hhand' =>
          cases hhand'.symm.trans hhand
          exact .inl (.inr rfl)
        | sends hhand' => exact nomatch hhand'.symm.trans hhand
        | stops hfree h => exact .inr hhand
    · cases step with
      | clears hhand h => exact .inr rfl

/-- Once a caller gives up before its write has passed the test, the write stays barred. -/
theorem barred_of_expired (h : Run start turns b) (hfree : start.hand = .free)
    {before after : List Turn} (hturns : turns = before ++ .expires caller :: after)
    (hwrite : command.isWrite = true) (hbefore : .clears caller command ∉ before) :
    b.Barred caller command ∧ .performs caller command ∉ after := by
  induction h generalizing after with
  | nil => exact absurd hturns (List.append_ne_nil_of_right_ne_nil _ (List.cons_ne_nil _ _)).symm
  | snoc run step ih =>
    rcases List.eq_nil_or_concat after with rfl | ⟨early, last, rfl⟩
    · obtain ⟨rfl, rfl⟩ := List.append_inj' hturns rfl |>.imp_right List.singleton_inj.mp
      refine ⟨?_, fun hp => by cases hp⟩
      cases step with
      | expires h => exact ⟨.head _, fun hhand => hbefore (clears_mem run hfree hhand)⟩
    · rw [List.concat_eq_append] at hturns ⊢
      rw [← List.cons_append, ← List.append_assoc] at hturns
      obtain ⟨hinit, hlast⟩ := List.append_inj' hturns rfl
      obtain rfl := List.singleton_inj.mp hlast
      obtain ⟨hbarred, hearly⟩ := ih hinit
      refine ⟨hbarred.step hwrite step, fun hp => ?_⟩
      rw [List.mem_append, List.mem_singleton] at hp
      rcases hp with hp | rfl
      · exact hearly hp
      · exact hbarred.not_performs step

/-- When the worker is past a write whose caller gave up, the write was carried out exactly if it
had passed the test before the caller gave up. -/
theorem performed_iff_cleared (hfree : start.hand = .free) {before after : List Turn}
    (h : Run start (before ++ .expires caller :: after) b) (hwrite : command.isWrite = true)
    (hpast : b.hand ≠ .cleared caller command) :
    .performs caller command ∈ before ++ .expires caller :: after ↔
      .clears caller command ∈ before := by
  constructor
  · intro hp
    refine Classical.byContradiction fun hbefore => ?_
    rcases List.mem_append.mp hp with hp | hp
    · obtain ⟨b₁, hrun⟩ := h.of_append
      exact hbefore (clears_mem_of_performs hrun hfree hp)
    · rcases List.mem_cons.mp hp with hp | hp
      · cases hp
      · exact (barred_of_expired h hfree rfl hwrite hbefore).2 hp
  · intro hc
    exact (performs_mem_of_clears h (List.mem_append_left _ hc)).resolve_right hpast

end

/-! ## A write that is carried out all the same -/

/-- No write is carried out whose caller is told that its call timed out. -/
def NoGhostWrites (start : Bench) : Prop :=
  ∀ {turns : List Turn} {b : Bench} {caller : Nat} {command : Command}, Run start turns b →
    command.isWrite = true → .expires caller ∈ turns → .performs caller command ∉ turns

def idle : Bench := { worker := { database := {} } }

def ghost : Command := .insert ⟨"10.0.0.5", .last 65535, "GHOST0", .epoch⟩

def ghostTurns : List Turn :=
  [.queues 0 ghost, .takes 0 ghost, .clears 0 ghost, .expires 0, .performs 0 ghost]

/-- The deadline passes right behind the test, and then the host is written. -/
theorem ghost_run : ∃ b, Run idle ghostTurns b ∧ b.worker.database.hosts ≠ some [] := by
  have h₁ : Run idle [.queues 0 ghost] _ := .snoc .nil (.queues ghost rfl)
  have h₂ := h₁.snoc (.takes rfl rfl)
  have h₃ := h₂.snoc (.clears rfl rfl)
  have h₄ := h₃.snoc (@Step.expires _ 0 ⟨by decide, List.not_mem_nil, List.not_mem_nil⟩)
  refine ⟨_, h₄.snoc (.performs rfl), ?_⟩
  intro h
  cases h

theorem not_noGhostWrites : ¬ NoGhostWrites idle := by
  intro h
  obtain ⟨b, hrun, -⟩ := ghost_run
  have hexpires : .expires 0 ∈ ghostTurns := .tail _ (.tail _ (.tail _ (.head _)))
  have hperforms : .performs 0 ghost ∈ ghostTurns := .tail _ (.tail _ (.tail _ (.tail _ (.head _))))
  exact h hrun rfl hexpires hperforms

end Bench
end Rendezvous
