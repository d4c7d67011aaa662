import Rendezvous.Simulation.Session

/-!
# Demands side by side

Any number of demands is met side by side over one store. `Stage.Turns` is what one demand does in a
step of its own: it reads the clock, or a call of it reaches the store, or ends without having
reached it; the evictions of a listing go on one by one, in any order. `Threads.Step` is a step of
all demands: one of them starts or takes a turn. What the store is and how it answers is left to
`Rules`, so that one relation serves every store and every kind of disturbance.
-/

namespace Rendezvous

/-- What a demand still has to do: it goes on, or it waits for evictions, each still under way or
over with what it came to. -/
inductive Stage
  | going (rest : Interaction Reply)
  | evicting (slots : List (Host × Option Bool)) (next : List Bool → Interaction Reply)

structure Thread where
  demand : Demand
  stage : Stage

/-- One step of a run; `who` is the place of the demand that makes it. -/
inductive Move
  | starts (demand : Demand)
  | reads (who : Nat) (now : Instant)
  | draws (who : Nat)
  | notes (who : Nat) (event : Event)
  /-- The call reaches the store and is answered. -/
  | asks (who : Nat) (command : Command) (answer : command.Answer)
  /-- The call ends and no answer of the store is heard. -/
  | misses (who : Nat) (command : Command)
  /-- All evictions of a listing are under way. -/
  | sweeps (who : Nat) (hosts : List Host)
  /-- The eviction of a host reaches the store and is answered. -/
  | evicts (who : Nat) (host : Host) (answer : Option Host)
  /-- The eviction of a host ends and no answer of the store is heard. -/
  | spares (who : Nat) (host : Host)
  /-- All evictions of a listing are over. -/
  | returns (who : Nat)

namespace Move

def who? : Move → Option Nat
  | .starts _ => none
  | .reads who _ | .draws who | .notes who _ | .asks who _ _ | .misses who _ | .sweeps who _
  | .evicts who _ _ | .spares who _ | .returns who => some who

def isCall : Move → Bool
  | .asks _ _ _ | .evicts _ _ _ => true
  | _ => false

end Move

theorem filterMap_concat {α β : Type} (f : α → Option β) (xs : List α) (x : α) :
    (xs ++ [x]).filterMap f = xs.filterMap f ++ (f x).toList := by
  rw [List.filterMap_append]
  cases h : f x with
  | none => simp [h]
  | some y => simp [h]

section

variable {α : Type} (f : Move → Option α) {who : Nat} {move : Move}

/-- What a move did, if it is one of the demand. -/
def Move.own? (who : Nat) (move : Move) : Option α := if move.who? = some who then f move else none

/-- What a demand did, in the order in which it did. -/
def doneBy (who : Nat) (moves : List Move) : List α := moves.filterMap (Move.own? f who)

theorem doneBy_own (past : List Move) (h : move.who? = some who) :
    doneBy f who (past ++ [move]) = doneBy f who past ++ (f move).toList := by
  rw [doneBy, filterMap_concat, Move.own?, if_pos h]
  rfl

theorem doneBy_other (past : List Move) (h : move.who? ≠ some who) :
    doneBy f who (past ++ [move]) = doneBy f who past := by
  rw [doneBy, filterMap_concat, Move.own?, if_neg h]
  exact List.append_nil _

theorem doneBy_eq_nil {moves : List Move} (h : ∀ move ∈ moves, move.who? ≠ some who) :
    doneBy f who moves = [] :=
  List.filterMap_eq_nil_iff.mpr fun move hmem => if_neg (h move hmem)

theorem mem_doneBy {moves : List Move} {a : α} :
    a ∈ doneBy f who moves ↔ ∃ move ∈ moves, move.who? = some who ∧ f move = some a := by
  simp [doneBy, Move.own?]

end

namespace Outcome

variable {command : Command}

def IsMiss : Outcome command → Prop
  | .answered _ => False
  | .failed _ | .timedOut => True

/-- What its caller hears of a call that is answered, in time or not. -/
def heard (answer : command.Answer) : (late : Bool) → Outcome command
  | false => .answered answer
  | true => .timedOut

/-- How a call may end without having reached the store. -/
inductive Unserved (feigned : Bool) : Outcome command → Prop
  | missed {outcome : Outcome command} (h : outcome.IsMiss) : Unserved feigned outcome
  /-- It is answered as if there were nothing. -/
  | feigned {answer : command.Answer} (hfeigned : feigned = true)
    (hempty : command.emptyAnswer? = some answer) : Unserved feigned (.answered answer)

end Outcome

/-- How a store with its draws serves demands. -/
structure Rules (σ : Type) where
  draws : σ → Uuid → σ → Prop
  /-- What becomes of a call that reaches the store. -/
  runs : σ → (command : Command) → Outcome command × σ
  /-- Calls may be answered as if there were nothing. -/
  feigned : Bool

/-- What a demand does in a step of its own, and what becomes of the store. The step is late if a
call of the demand is carried out and the demand does not hear of it. -/
inductive Stage.Turns {σ : Type} (rules : Rules σ) (who : Nat) (x : σ) :
    Stage → Move → (late : Bool) → σ → Stage → Prop
  | reads (next : Instant → Interaction Reply) (now : Instant) :
    Turns rules who x (.going (.readClock next)) (.reads who now) false x (.going (next now))
  | draws (next : Uuid → Interaction Reply) {uuid : Uuid} {x' : σ} (h : rules.draws x uuid x') :
    Turns rules who x (.going (.draw next)) (.draws who) false x' (.going (next uuid))
  | notes (event : Event) (next : Interaction Reply) :
    Turns rules who x (.going (.log event next)) (.notes who event) false x (.going next)
  /-- The call is carried out. Its caller hears of it, unless the deadline has passed before. -/
  | asks {command : Command} (limit : Nat) (next : Outcome command → Interaction Reply)
    (late : Bool) {answer : command.Answer} (h : (rules.runs x command).1 = .answered answer) :
    Turns rules who x (.going (.call command limit next)) (.asks who command answer) late
      (rules.runs x command).2 (.going (next (.heard answer late)))
  /-- The store takes the call and does not answer it. -/
  | fails {command : Command} (limit : Nat) (next : Outcome command → Interaction Reply)
    (h : (rules.runs x command).1.IsMiss) :
    Turns rules who x (.going (.call command limit next)) (.misses who command) false
      (rules.runs x command).2 (.going (next (rules.runs x command).1))
  /-- The call ends without having reached the store. -/
  | misses {command : Command} (limit : Nat) (next : Outcome command → Interaction Reply)
    {outcome : Outcome command} (h : outcome.Unserved rules.feigned) :
    Turns rules who x (.going (.call command limit next)) (.misses who command) false x
      (.going (next outcome))
  | sweeps (hosts : List Host) (limit : Nat) (next : List Bool → Interaction Reply) :
    Turns rules who x (.going (.evict hosts limit next)) (.sweeps who hosts) false x
      (.evicting (hosts.map (·, none)) next)
  /-- The eviction is carried out. The listing hears of it, unless its deadline has passed. -/
  | evicts {slots : List (Host × Option Bool)} {host : Host} (next : List Bool → Interaction Reply)
    (i : Nat) (late : Bool) {answer : Option Host} (hslot : slots[i]? = some (host, none))
    (h : (rules.runs x (.deleteById host.id)).1 = .answered answer) :
    Turns rules who x (.evicting slots next) (.evicts who host answer) late
      (rules.runs x (.deleteById host.id)).2
      (.evicting (slots.set i (host, some (!late && answer.isSome))) next)
  /-- The store takes the eviction and does not answer it. -/
  | stalls {slots : List (Host × Option Bool)} {host : Host} (next : List Bool → Interaction Reply)
    (i : Nat) (hslot : slots[i]? = some (host, none))
    (h : (rules.runs x (.deleteById host.id)).1.IsMiss) :
    Turns rules who x (.evicting slots next) (.spares who host) false
      (rules.runs x (.deleteById host.id)).2 (.evicting (slots.set i (host, some false)) next)
  | spares {slots : List (Host × Option Bool)} {host : Host} (next : List Bool → Interaction Reply)
    (i : Nat) (hslot : slots[i]? = some (host, none)) :
    Turns rules who x (.evicting slots next) (.spares who host) false x
      (.evicting (slots.set i (host, some false)) next)
  | returns {slots : List (Host × Option Bool)} (next : List Bool → Interaction Reply)
    (h : ∀ slot ∈ slots, slot.2 ≠ none) :
    Turns rules who x (.evicting slots next) (.returns who) false x
      (.going (next (slots.map (·.2.getD false))))

theorem Stage.Turns.who? {σ : Type} {rules : Rules σ} {who : Nat} {x x' : σ} {old new : Stage}
    {move : Move} {late : Bool} (h : old.Turns rules who x move late x' new) :
    move.who? = some who := by
  cases h <;> rfl

namespace Threads

variable {σ : Type} (rules : Rules σ) (terms : Terms) (guard : Guard)

/-- One of the demands starts or takes a turn; all others stay where they are. -/
inductive Step (x : σ) (threads : List Thread) : Move → (late : Bool) → σ → List Thread → Prop
  | starts (demand : Demand) : Step x threads (.starts demand) false x
      (threads ++ [⟨demand, .going (demand.interaction terms guard)⟩])
  | goes {demand : Demand} {old new : Stage} {move : Move} {late : Bool} {x' : σ} (who : Nat)
    (h : threads[who]? = some ⟨demand, old⟩) (hturns : old.Turns rules who x move late x' new) :
    Step x threads move late x' (threads.set who ⟨demand, new⟩)

namespace Step

variable {rules : Rules σ} {terms : Terms} {guard : Guard} {x x' : σ}
  {threads threads' : List Thread} {move : Move} {late : Bool}

/-- What a demand that starts comes with, and what is kept by the turns of a demand and by those of
the others, is so of all demands after the step. -/
theorem each {P Q : Nat → Demand → Stage → Prop}
    (h : Step rules terms guard x threads move late x' threads')
    (hinit : ∀ demand, move = .starts demand →
      Q threads.length demand (.going (demand.interaction terms guard)))
    (hown : ∀ who demand old new, threads[who]? = some ⟨demand, old⟩ →
      threads'[who]? = some ⟨demand, new⟩ → P who demand old →
      old.Turns rules who x move late x' new → Q who demand new)
    (hother : ∀ who demand stage, P who demand stage → move.who? ≠ some who → Q who demand stage)
    (hP : ∀ who thread, threads[who]? = some thread → P who thread.demand thread.stage)
    {who : Nat} {thread : Thread} (hw : threads'[who]? = some thread) :
    Q who thread.demand thread.stage := by
  cases h with
  | starts demand =>
    rw [List.getElem?_append] at hw
    split at hw
    · exact hother who _ _ (hP who thread hw) nofun
    · next hlt =>
      rw [List.getElem?_singleton] at hw
      split at hw
      · cases hw
        obtain rfl : who = threads.length := by omega
        exact hinit demand rfl
      · cases hw
  | @goes demand old new _ _ _ other hold hturns =>
    rw [List.getElem?_set] at hw
    split at hw
    · next he =>
      subst he
      split at hw
      · next hlt =>
        cases hw
        exact hown other demand old new hold (List.getElem?_set_self hlt) (hP other _ hold) hturns
      · cases hw
    · next hne =>
      refine hother who _ _ (hP who thread hw) ?_
      rw [hturns.who?]
      exact fun he => hne (Option.some.inj he)

/-- A place where no demand has started yet was not there before, and made no move. -/
theorem fresh (h : Step rules terms guard x threads move late x' threads') {who : Nat}
    (hw : threads'.length ≤ who) : threads.length ≤ who ∧ move.who? ≠ some who := by
  cases h with
  | starts demand =>
    rw [List.length_append] at hw
    exact ⟨by omega, nofun⟩
  | goes other hold hturns =>
    rw [List.length_set] at hw
    have hlt := (List.getElem?_eq_some_iff.mp hold).1
    refine ⟨hw, ?_⟩
    rw [hturns.who?]
    intro he
    cases he
    omega

theorem demands (h : Step rules terms guard x threads move late x' threads') :
    threads.map (·.demand) <+: threads'.map (·.demand) := by
  cases h with
  | starts demand =>
    rw [List.map_append]
    exact List.prefix_append _ _
  | @goes demand old new _ _ _ who hold hturns =>
    have hmap : (threads.map (·.demand))[who]? = some demand := by
      rw [List.getElem?_map, hold]
      rfl
    obtain ⟨hlt, he⟩ := List.getElem?_eq_some_iff.mp hmap
    have hsame : (threads.map (·.demand)).set who demand = threads.map (·.demand) := by
      rw [← he, List.set_getElem_self]
    rw [List.map_set]
    exact ⟨[], (List.append_nil _).trans hsame.symm⟩

theorem asks_inv {who : Nat} {command : Command} {answer : command.Answer}
    (h : Step rules terms guard x threads (.asks who command answer) late x' threads') :
    ∃ demand limit next, threads[who]? = some ⟨demand, .going (.call command limit next)⟩ ∧
      (rules.runs x command).1 = .answered answer ∧ x' = (rules.runs x command).2 ∧
      threads' = threads.set who ⟨demand, .going (next (.heard answer late))⟩ := by
  cases h with
  | goes _ hw hturns =>
    cases hturns with
    | asks limit next late hrun => exact ⟨_, limit, next, hw, hrun, rfl, rfl⟩

theorem evicts_inv {who : Nat} {host : Host} {answer : Option Host}
    (h : Step rules terms guard x threads (.evicts who host answer) late x' threads') :
    ∃ demand slots next, ∃ i : Nat, threads[who]? = some ⟨demand, .evicting slots next⟩ ∧
      slots[i]? = some (host, none) ∧
      (rules.runs x (.deleteById host.id)).1 = .answered answer := by
  cases h with
  | goes _ hw hturns =>
    cases hturns with
    | evicts next i late hslot hrun => exact ⟨_, _, next, i, hw, hslot, hrun⟩

end Step
end Threads
end Rendezvous
