import Rendezvous.Proofs.Interleaving

/-!
# Runs under disturbances

`MemorySystem.Plays` is a run of steps in which calls may also be answered as if there were nothing,
told by its trace: each move with the systems before and after it. `Plays.threads` leads from what
the turns of each demand keep to what every run keeps.
-/

namespace Rendezvous

structure MemoryTransition where
  before : MemorySystem
  move : Move
  after : MemorySystem

/-- A listing of the store is answered with all that is stored, and leaves it as it is. -/
theorem Memory.Moved.list {m m' : Memory} {who : Nat} {snapshot : List Host}
    (h : m.Moved (.asks who .list snapshot) m') : snapshot = m.list ∧ m' = m := by
  cases h with
  | still hcall => cases hcall
  | asks _ _ draws => exact ⟨rfl, rfl⟩

namespace MemorySystem

variable {terms : Terms} {guard : Guard} {s s' start : MemorySystem} {move : Move}
  {trace : List MemoryTransition}

variable (terms guard) in
inductive Plays (start : MemorySystem) : List MemoryTransition → MemorySystem → Prop
  | nil : Plays start [] start
  | snoc {trace : List MemoryTransition} {s s' : MemorySystem} {move : Move}
    (run : Plays start trace s) (step : s.Disturbed terms guard move s') :
    Plays start (trace ++ [⟨s, move, s'⟩]) s'

namespace Plays

theorem consistent (h : start.Plays terms guard trace s) (hm : start.store.Consistent) :
    s.store.Consistent := by
  induction h with
  | nil => exact hm
  | snoc run step ih => exact step.moved.consistent ih

theorem trans {more : List MemoryTransition} (h : start.Plays terms guard trace s)
    (hmore : s.Plays terms guard more s') : start.Plays terms guard (trace ++ more) s' := by
  induction hmore with
  | nil =>
    rw [List.append_nil]
    exact h
  | snoc run step ih =>
    rw [← List.append_assoc]
    exact ih.snoc step

theorem transition (h : start.Plays terms guard trace s) :
    ∀ b ∈ trace, ∃ past, start.Plays terms guard past b.before ∧
      b.before.store.Moved b.move b.after.store := by
  induction h with
  | nil => intro b hb; cases hb
  | @snoc trace s s' move run step ih =>
    intro b hb
    rw [List.mem_append, List.mem_singleton] at hb
    rcases hb with hb | rfl
    · exact ih b hb
    · exact ⟨trace, run, step.moved⟩

/-- Who has not started has made no move. -/
theorem who?_ne (h : start.Plays terms guard trace s) {who : Nat} (hw : s.threads.length ≤ who) :
    ∀ b ∈ trace, b.move.who? ≠ some who := by
  induction h with
  | nil => intro b hb; cases hb
  | snoc run step ih =>
    obtain ⟨hpast, hmove⟩ := step.fresh hw
    intro b hb
    rw [List.mem_append, List.mem_singleton] at hb
    rcases hb with hb | rfl
    · exact ih hpast b hb
    · exact hmove

/-- What holds of a demand that starts, and is kept by its own turns and by the moves of the others,
holds of every demand of a run. -/
theorem threads {P : Nat → Demand → List MemoryTransition → Memory → Stage → Prop}
    (hinit : ∀ who demand trace m, (∀ b ∈ trace, b.move.who? ≠ some who) →
      P who demand trace m (.going (demand.interaction terms guard)))
    (hown : ∀ who demand trace b old new, start.Plays terms guard trace b.before →
      P who demand trace b.before.store old →
      old.Turns (Memory.rules true) who (b.before.store, b.before.draws) b.move false
        (b.after.store, b.after.draws) new → P who demand (trace ++ [b]) b.after.store new)
    (hother : ∀ who demand trace b stage, start.Plays terms guard trace b.before →
      P who demand trace b.before.store stage → b.move.who? ≠ some who →
      b.before.store.Moved b.move b.after.store → P who demand (trace ++ [b]) b.after.store stage)
    (h : start.Plays terms guard trace s) (hs : start.threads = []) {who : Nat} {thread : Thread}
    (hw : s.threads[who]? = some thread) : P who thread.demand trace s.store thread.stage := by
  induction h generalizing who thread with
  | nil =>
    rw [hs] at hw
    cases hw
  | @snoc trace s s' move run step ih =>
    refine step.each (P := fun who demand stage => P who demand trace s.store stage)
      (Q := fun who demand stage => P who demand (trace ++ [⟨s, move, s'⟩]) s'.store stage)
      ?_ ?_ ?_ (fun _ _ => ih) hw
    · rintro demand rfl
      refine hinit _ _ _ _ fun b hb => ?_
      rw [List.mem_append, List.mem_singleton] at hb
      rcases hb with hb | rfl
      · exact run.who?_ne (Nat.le_refl _) b hb
      · exact nofun
    · exact fun who demand old new _ _ => hown who demand trace ⟨s, move, s'⟩ old new run
    · exact fun who demand stage hstage hne =>
        hother who demand trace ⟨s, move, s'⟩ stage run hstage hne step.moved

/-- What holds of a store that was just listed, and is kept by the moves since, holds in the end. -/
theorem since {R : List Host → List Move → Memory → Prop}
    (hlist : ∀ {store : Memory}, store.Consistent → R store.list [] store)
    (hmoved : ∀ {snapshot since store move store'}, store.Consistent → R snapshot since store →
      store.Moved move store' → R snapshot (since ++ [move]) store')
    (h : start.Plays terms guard trace s) (hm : start.store.Consistent) {before since : List Move}
    {who : Nat} {snapshot : List Host}
    (hsplit : trace.map (·.move) = before ++ .asks who .list snapshot :: since) :
    R snapshot since s.store := by
  induction h generalizing since with
  | nil => cases before <;> cases hsplit
  | @snoc trace s s' move run step ih =>
    rw [List.map_append] at hsplit
    rcases List.eq_nil_or_concat since with rfl | ⟨since, last, rfl⟩
    · obtain ⟨-, he⟩ := List.append_inj' hsplit rfl
      obtain rfl : move = _ := List.singleton_inj.mp he
      obtain ⟨rfl, hsame⟩ := step.moved.list
      rw [hsame]
      exact hlist (run.consistent hm)
    · rw [List.concat_eq_append, ← List.cons_append, ← List.append_assoc] at hsplit
      obtain ⟨hpast, he⟩ := List.append_inj' hsplit rfl
      obtain rfl : move = last := List.singleton_inj.mp he
      rw [List.concat_eq_append]
      exact hmoved (run.consistent hm) (ih hpast) step.moved

end Plays

/-! ## Runs without disturbances -/

/-- A step in which nothing is feigned is one in which something might be. -/
theorem Steps.disturbed (h : s.Step terms guard move s') : s.Disturbed terms guard move s' := by
  have hturns {who : Nat} {x x' : Memory × Draws} {old new : Stage} {late : Bool}
      (h : old.Turns (Memory.rules false) who x move late x' new) :
      old.Turns (Memory.rules true) who x move late x' new := by
    cases h with
    | misses limit next hunserved =>
      cases hunserved with
      | missed hmiss => exact .misses limit next (.missed hmiss)
      | feigned hfeigned hempty => cases hfeigned
    | reads next now => exact .reads next now
    | draws next hdrawn => exact .draws next hdrawn
    | notes event next => exact .notes event next
    | asks limit next late hrun => exact .asks limit next late hrun
    | fails limit next hmiss => exact hmiss.elim
    | sweeps hosts limit next => exact .sweeps hosts limit next
    | evicts next i late hslot hrun => exact .evicts next i late hslot hrun
    | stalls next i hslot hmiss => exact hmiss.elim
    | spares next i hslot => exact .spares next i hslot
    | returns next hover => exact .returns next hover
  have hsteps {x x' : Memory × Draws} {threads threads' : List Thread} {late : Bool}
      (h : Threads.Step (Memory.rules false) terms guard x threads move late x' threads') :
      Threads.Step (Memory.rules true) terms guard x threads move late x' threads' := by
    cases h with
    | starts demand => exact .starts demand
    | goes who hw hgoes => exact .goes who hw (hturns hgoes)
  exact hsteps h

theorem Run.plays {past : List Move} (h : start.Run terms guard past s) :
    ∃ trace, start.Plays terms guard trace s ∧ trace.map (·.move) = past := by
  induction h with
  | nil => exact ⟨[], .nil, rfl⟩
  | snoc run step ih =>
    obtain ⟨trace, hplays, rfl⟩ := ih
    exact ⟨_, hplays.snoc (Steps.disturbed step), List.map_append⟩

end MemorySystem
end Rendezvous
