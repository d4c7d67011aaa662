import Rendezvous.Proofs.Disturbed
import Rendezvous.Proofs.Handling
import Rendezvous.Proofs.BackingRuns

/-!
# The courses of demands in runs

In every run each demand takes a course by which it asks for nothing but what it may:
`BackingSystem.Runs.course` and `MemorySystem.Plays.course`. What is known of a demand in the midst
of others is read from its course.
-/

namespace Rendezvous

/-- The demand heard of every call of its that was carried out. -/
def InTime (who : Nat) (trace : List Transition) : Prop :=
  ∀ t ∈ trace, ∀ move, t.move? = some move → move.who? = some who → t.late = false

section

variable {terms : Terms} {guard : Guard} {who : Nat} {thread : Thread}

theorem BackingSystem.Runs.course {feigned : Bool} {start s : BackingSystem}
    {trace : List Transition} (h : start.Runs terms guard feigned trace s) (hs : start.threads = [])
    (hw : s.threads[who]? = some thread) : ∃ missed c,
      Course.Run (thread.demand.May terms guard) feigned who (movesOf trace) missed c ∧
      thread.stage.Keeps (thread.demand.May terms guard) (thread.demand.Ends guard) c ∧
      (InTime who trace → missed = false) := by
  refine h.threads (P := fun who demand trace stage => ∃ missed c,
    Course.Run (demand.May terms guard) feigned who (movesOf trace) missed c ∧
    stage.Keeps (demand.May terms guard) (demand.Ends guard) c ∧
    (InTime who trace → missed = false)) ?_ ?_ ?_ hs hw
  · exact fun who demand trace _ hnone =>
      ⟨false, {}, .of_fresh hnone, ⟨rfl, demand.keeps terms guard⟩, fun _ => rfl⟩
  · rintro who demand trace t move old new hturns ⟨missed, c, hrun, hkeeps, htime⟩
    obtain ⟨c', hstep, hnew⟩ := hturns.turns.keeps hkeeps
    rw [movesOf_concat hturns.move?]
    refine ⟨_, c', hrun.own hstep, hnew, fun hin => ?_⟩
    rw [htime fun u hu => hin u (List.mem_append_left _ hu),
      hin t (by simp) move hturns.move? hturns.turns.who?]
    rfl
  · rintro who demand trace t stage hspares ⟨missed, c, hrun, hkeeps, htime⟩
    refine ⟨missed, c, ?_, hkeeps, fun hin => htime fun u hu => hin u (List.mem_append_left _ hu)⟩
    rw [movesOf_append]
    cases hmove : t.move? with
    | none =>
      rw [Option.toList_none, List.append_nil]
      exact hrun
    | some move => exact hrun.other (hspares move hmove)

theorem MemorySystem.Plays.course {start s : MemorySystem} {trace : List MemoryTransition}
    (h : start.Plays terms guard trace s) (hs : start.threads = [])
    (hw : s.threads[who]? = some thread) : ∃ c,
      Course.Run (thread.demand.May terms guard) true who (trace.map (·.move)) false c ∧
      thread.stage.Keeps (thread.demand.May terms guard) (thread.demand.Ends guard) c := by
  refine h.threads (P := fun who demand trace _ stage => ∃ c,
    Course.Run (demand.May terms guard) true who (trace.map (·.move)) false c ∧
    stage.Keeps (demand.May terms guard) (demand.Ends guard) c) ?_ ?_ ?_ hs hw
  · intro who demand trace m hnone
    exact ⟨{}, .of_fresh (by simpa using hnone), rfl, demand.keeps terms guard⟩
  · rintro who demand trace b old new - ⟨c, hrun, hkeeps⟩ hturns
    obtain ⟨c', hstep, hnew⟩ := hturns.keeps hkeeps
    rw [List.map_append]
    exact ⟨c', hrun.own hstep, hnew⟩
  · rintro who demand trace b stage - ⟨c, hrun, hkeeps⟩ hne -
    rw [List.map_append]
    exact ⟨c, hrun.other hne, hkeeps⟩

end

/-! ## What is known of a course -/

namespace Course

variable {α : Type} (f : {command : Command} → Outcome command → Option α)

def did (c : Course) : Option α := c.ended.bind fun call => f call.2

variable {f} {terms : Terms} {guard : Guard} {demand : Demand} {feigned missed : Bool} {who : Nat}
  {moves : List Move} {c : Course}

theorem did_of_ended {command : Command} {outcome : Outcome command}
    (h : c.ended = some ⟨command, outcome⟩) : c.did f = f outcome := by
  rw [did, h, Option.bind_some]

theorem Unsettled.did (h : c.Unsettled)
    (hf : ∀ candidate, f (.answered none : Outcome (.insert candidate)) = none) :
    c.did f = none := by
  rcases h with h | ⟨candidate, h⟩
  · rw [Course.did, h, Option.bind_none]
  · exact (did_of_ended h).trans (hf candidate)

/-- A demand that heard of all its calls has done what the last of them did, if inserts whose code
was taken do nothing, and neither do its other moves. -/
theorem Run.doneBy_eq {g : Move → Option α} (hf : ∀ candidate,
      f (.answered none : Outcome (.insert candidate)) = none)
    (hunserved : ∀ {command : Command} {outcome : Outcome command},
      outcome.Unserved feigned → f outcome = none)
    (hasks : ∀ command answer,
      g (.asks who command answer) = f (.answered answer : Outcome command))
    (hrest : ∀ {moves move late c c'}, Run (demand.May terms guard) feigned who moves false c →
      c.Step (demand.May terms guard) feigned who move late c' →
      (∀ command answer, move ≠ .asks who command answer) → g move = none)
    (h : Run (demand.May terms guard) feigned who moves missed c) (hin : missed = false) :
    doneBy g who moves = (c.did f).toList := by
  induction h with
  | nothing => rfl
  | other h hne ih => exact (doneBy_other g _ hne).trans (ih hin)
  | own h step ih =>
    obtain ⟨rfl, rfl⟩ := Bool.or_eq_false_iff.mp hin
    have hnone := hrest h step
    rw [doneBy_own g _ step.who?, ih rfl]
    cases step with
    | asks hmay answer =>
      rw [hmay.allows.call_cases.1.did hf, hasks]
      rfl
    | misses hmay hout =>
      rw [hmay.allows.call_cases.1.did hf, hnone (fun _ _ => nofun), did_of_ended rfl,
        hunserved hout]
      rfl
    | _ =>
      rw [hnone (fun _ _ => nofun), Option.toList_none, List.append_nil]
      rfl

/-- What was read from the clock, was read by a move. -/
theorem Run.mem_of_read {may : Course → Query → Prop} (h : Run may feigned who moves missed c)
    {now : Instant} (hread : c.read = some now) : .reads who now ∈ moves := by
  induction h with
  | nothing => cases hread
  | other h hne ih => exact List.mem_append_left _ (ih hread)
  | own h step ih =>
    cases step with
    | reads hmay now =>
      cases hread
      exact List.mem_append_right _ (.head _)
    | _ => exact List.mem_append_left _ (ih hread)

/-- A call that was answered was asked for, unless it is answered as if there were nothing. -/
theorem Run.of_answered {may : Course → Query → Prop} (h : Run may feigned who moves missed c)
    {command : Command} {answer : command.Answer}
    (hended : c.ended = some ⟨command, .answered answer⟩) :
    (feigned = true ∧ command.emptyAnswer? = some answer) ∨
      ∃ before since, moves = before ++ .asks who command answer :: since := by
  have hlater {moves : List Move} (last : Move)
      (h : ∃ before since, moves = before ++ .asks who command answer :: since) :
      ∃ before since, moves ++ [last] = before ++ .asks who command answer :: since := by
    obtain ⟨before, since, rfl⟩ := h
    exact ⟨before, since ++ [last], List.append_assoc _ _ _⟩
  induction h with
  | nothing => cases hended
  | other h hne ih => exact (ih hended).imp_right (hlater _)
  | @own moves move missed late c c' h step ih =>
    cases step with
    | asks hmay given late =>
      cases late with
      | false =>
        cases hended
        exact .inr ⟨moves, [], rfl⟩
      | true => cases hended
    | misses hmay hout =>
      cases hended
      rcases hout with hmiss | ⟨hfeigned, hempty⟩
      · exact hmiss.elim
      · exact .inl ⟨hfeigned, hempty⟩
    | _ => exact (ih hended).imp_right (hlater _)

/-- An answered call is the last one, unless it was an insert. -/
theorem Run.ended_of_asks (h : Run (demand.May terms guard) feigned who moves missed c)
    {command : Command} {answer : command.Answer} (hmem : .asks who command answer ∈ moves)
    (hinsert : ∀ candidate, command ≠ .insert candidate) :
    ∃ late, c.ended = some ⟨command, .heard answer late⟩ := by
  induction h with
  | nothing => cases hmem
  | other h hne ih =>
    rcases List.mem_append.mp hmem with hmem | hmem
    · exact ih hmem
    · obtain rfl := List.mem_singleton.mp hmem
      exact absurd rfl hne
  | own h step ih =>
    rcases List.mem_append.mp hmem with hmem | hmem
    · obtain ⟨late, hended⟩ := ih hmem
      cases step with
      | asks hmay | misses hmay =>
        obtain ⟨candidate, he⟩ := hmay.allows.call_cases.1.insert_of_ended hended
        exact absurd he (hinsert candidate)
      | _ => exact ⟨late, hended⟩
    · obtain rfl := List.mem_singleton.mp hmem
      cases step with
      | asks => exact ⟨_, rfl⟩

end Course
end Rendezvous
