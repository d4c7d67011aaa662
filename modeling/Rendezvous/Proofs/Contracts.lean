import Mathlib.Data.List.Induction
import Rendezvous.Proofs.Turns

/-!
# What interactions may ask

`Interaction.Keeps` says of an interaction that, whatever the world answers, it asks for nothing but
what it may, and that its value is as it should be. Both go by its `Course`, which is what it has
heard so far. `Stage.Turns.keeps` takes this along the turns of a demand that is met beside others,
and `Course.Run` is what is then known of its moves.
-/

namespace Rendezvous

/-! ## Courses -/

/-- What an interaction asks of the world. -/
inductive Query
  | clock
  | draw
  | call (command : Command)
  | evict (hosts : List Host)
  | note (event : Event)

def Event.evictions : Event → Nat
  | .swept count _ => count
  | _ => 0

def Query.report : Query → Nat
  | .note event => event.evictions
  | _ => 0

structure Course where
  /-- What the clock showed last. -/
  read : Option Instant := none
  /-- What was drawn last. -/
  drawn : Option Uuid := none
  /-- The last call, and how it ended for its caller. -/
  ended : Option ((command : Command) × Outcome command) := none
  /-- The evictions under way. -/
  slots : List (Host × Option Bool) := []
  /-- How many evictions succeeded and are not reported yet. -/
  owed : Nat := 0

namespace Course

variable (c : Course)

def hears {command : Command} (outcome : Outcome command) : Course :=
  { c with ended := some ⟨command, outcome⟩ }

def sweeps (removed : List Bool) : Course :=
  { c with slots := [], owed := c.owed + removed.count true }

def notes (event : Event) : Course := { c with owed := c.owed - event.evictions }

end Course

/-! ## Interactions -/

namespace Interaction

variable {α β : Type}

/-- Whatever the world answers, nothing is asked for but what may be, and the value is as it should
be. -/
def Keeps (may : Course → Query → Prop) (ends : Course → α → Prop) : Interaction α → Course → Prop
  | .done value, c => ends c value
  | .readClock next, c =>
    may c .clock ∧ ∀ now, (next now).Keeps may ends { c with read := some now }
  | .draw next, c =>
    may c .draw ∧ ∀ uuid, (next uuid).Keeps may ends { c with drawn := some uuid }
  | .call command _ next, c =>
    may c (.call command) ∧ ∀ outcome, (next outcome).Keeps may ends (c.hears outcome)
  | .evict hosts _ next, c =>
    may c (.evict hosts) ∧ ∀ removed, (next removed).Keeps may ends (c.sweeps removed)
  | .log event next, c => may c (.note event) ∧ next.Keeps may ends (c.notes event)

variable {may : Course → Query → Prop} {c : Course}

theorem keeps_bind {ends : Course → β → Prop} {i : Interaction α} {f : α → Interaction β} :
    (i.bind f).Keeps may ends c ↔ i.Keeps may (fun c value => (f value).Keeps may ends c) c := by
  induction i generalizing c with
  | done value => exact .rfl
  | readClock next ih | draw next ih | call command limit next ih | evict hosts limit next ih =>
    exact and_congr_right fun _ => forall_congr' fun answer => ih answer
  | log event next ih => exact and_congr_right fun _ => ih

theorem keeps_map {ends : Course → β → Prop} {i : Interaction α} {f : α → β} :
    (i.map f).Keeps may ends c ↔ i.Keeps may (fun c value => ends c (f value)) c :=
  keeps_bind

theorem Keeps.mono {may' : Course → Query → Prop} {ends ends' : Course → α → Prop}
    {i : Interaction α} (h : i.Keeps may ends c) (hmay : ∀ c q, may c q → may' c q)
    (hends : ∀ c value, ends c value → ends' c value) : i.Keeps may' ends' c := by
  induction i generalizing c with
  | done value => exact hends c value h
  | readClock next ih | draw next ih | call command limit next ih | evict hosts limit next ih =>
    exact ⟨hmay _ _ h.1, fun answer => ih answer (h.2 answer)⟩
  | log event next ih => exact ⟨hmay _ _ h.1, ih h.2⟩

/-- An interaction that may ask for nothing is over. -/
theorem Keeps.eq_done {ends : Course → α → Prop} {i : Interaction α} (h : i.Keeps may ends c)
    (hno : ∀ q, ¬ may c q) : ∃ value, i = .done value ∧ ends c value := by
  cases i with
  | done value => exact ⟨value, rfl, h⟩
  | _ => exact (hno _ h.1).elim

/-- The value, once there is nothing left to do before it but to write to the log. -/
def answer? : Interaction α → Option α
  | .done value => some value
  | .log _ next => next.answer?
  | _ => none

/-- Either the value is certain, and is as it should be after the last call, or something else than
a note to the log comes next. -/
theorem Keeps.answer?_cases {ends : Course → α → Prop} {i : Interaction α}
    (h : i.Keeps may ends c) : ∃ c', c'.ended = c.ended ∧
      ((∃ value, i.answer? = some value ∧ ends c' value) ∨
        i.answer? = none ∧ ∃ q, may c' q ∧ ∀ event, q ≠ .note event) := by
  induction i generalizing c with
  | done value => exact ⟨c, rfl, .inl ⟨value, rfl, h⟩⟩
  | log event next ih =>
    obtain ⟨c', he, hc⟩ := ih h.2
    exact ⟨c', he, hc⟩
  | readClock | draw | call | evict => exact ⟨c, rfl, .inr ⟨rfl, _, h.1, fun _ => nofun⟩⟩

/-- Whatever the world answers, the value is as `P` says. -/
def Yields (P : α → Prop) (i : Interaction α) : Prop :=
  i.Keeps (fun _ _ => True) (fun _ => P) {}

/-- It does not matter what was heard before. -/
theorem yields_iff {P : α → Prop} {i : Interaction α} (c : Course) :
    i.Yields P ↔ i.Keeps (fun _ _ => True) (fun _ => P) c := by
  unfold Yields
  generalize ({} : Course) = fresh
  induction i generalizing c fresh with
  | done value => exact .rfl
  | readClock next ih | draw next ih | call command limit next ih | evict hosts limit next ih =>
    exact and_congr_right fun _ => forall_congr' fun answer => ih answer _ _
  | log event next ih => exact and_congr_right fun _ => ih _ _

theorem yields_of_forall {P : α → Prop} (h : ∀ value, P value) (i : Interaction α) :
    i.Yields P := by
  rw [Yields]
  generalize ({} : Course) = c
  induction i generalizing c with
  | done value => exact h value
  | log event next ih => exact ⟨trivial, ih _⟩
  | readClock next ih | draw next ih | call command limit next ih | evict hosts limit next ih =>
    exact ⟨trivial, fun answer => ih answer _⟩

theorem Yields.mono {P Q : α → Prop} {i : Interaction α} (h : i.Yields P)
    (himp : ∀ value, P value → Q value) : i.Yields Q :=
  Keeps.mono h (fun _ _ => id) fun _ => himp

theorem Yields.bind {P : β → Prop} {i : Interaction α} {f : α → Interaction β}
    (h : i.Yields fun value => (f value).Yields P) : (i.bind f).Yields P :=
  keeps_bind.mpr (Keeps.mono h (fun _ _ => id) fun c _ => (yields_iff c).mp)

/-- What holds whatever the world answers holds of a run. -/
theorem Yields.run {P : α → Prop} {i : Interaction α} (h : i.Yields P) (w : World) :
    P (i.run w).1 := by
  induction i generalizing w with
  | done value => exact h
  | log event next ih => exact ih ((yields_iff _).mpr h.2) _
  | readClock next ih | draw next ih | call command limit next ih | evict hosts limit next ih =>
    exact ih _ ((yields_iff _).mpr (h.2 _)) _

end Interaction

/-! ## Demands beside others -/

/-- What is left of a demand keeps to what it may ask for; while evictions are under way, those were
what it might ask for. -/
def Stage.Keeps (may : Course → Query → Prop) (ends : Course → Reply → Prop) :
    Stage → Course → Prop
  | .going i, c => c.slots = [] ∧ i.Keeps may ends c
  | .evicting slots next, c =>
    (∃ past, may past (.evict (slots.map (·.1))) ∧ c = { past with slots }) ∧
      ∀ removed, (next removed).Keeps may ends (c.sweeps removed)

namespace Course

variable (may : Course → Query → Prop) (feigned : Bool) (who : Nat)

/-- One move of a demand takes its course further. -/
inductive Step (c : Course) : Move → (late : Bool) → Course → Prop
  | reads (hmay : may c .clock) (now : Instant) :
    Step c (.reads who now) false { c with read := some now }
  | draws (hmay : may c .draw) (uuid : Uuid) :
    Step c (.draws who) false { c with drawn := some uuid }
  | notes {event : Event} (hmay : may c (.note event)) :
    Step c (.notes who event) false (c.notes event)
  | asks {command : Command} (hmay : may c (.call command)) (answer : command.Answer)
    (late : Bool) :
    Step c (.asks who command answer) late (c.hears (.heard answer late : Outcome command))
  | misses {command : Command} (hmay : may c (.call command)) {outcome : Outcome command}
    (h : outcome.Unserved feigned) : Step c (.misses who command) false (c.hears outcome)
  | sweeps {hosts : List Host} (hmay : may c (.evict hosts)) (hnone : c.slots = []) :
    Step c (.sweeps who hosts) false { c with slots := hosts.map (·, none) }
  | evicts {host : Host} {i : Nat} (hslot : c.slots[i]? = some (host, none))
    (answer : Option Host) (late : Bool) : Step c (.evicts who host answer) late
      { c with slots := c.slots.set i (host, some (!late && answer.isSome)) }
  | spares {host : Host} {i : Nat} (hslot : c.slots[i]? = some (host, none)) :
    Step c (.spares who host) false { c with slots := c.slots.set i (host, some false) }
  | returns : Step c (.returns who) false (c.sweeps (c.slots.map (·.2.getD false)))

/-- The course that a demand has taken, by the moves of all demands; it has missed something if a
call of its was carried out and it did not hear of that. -/
inductive Run : List Move → (missed : Bool) → Course → Prop
  | nothing : Run [] false {}
  | other {moves : List Move} {move : Move} {missed : Bool} {c : Course} (h : Run moves missed c)
    (hne : move.who? ≠ some who) : Run (moves ++ [move]) missed c
  | own {moves : List Move} {move : Move} {missed late : Bool} {c c' : Course}
    (h : Run moves missed c) (step : c.Step may feigned who move late c') :
    Run (moves ++ [move]) (missed || late) c'

variable {may : Course → Query → Prop} {feigned : Bool} {who : Nat}

theorem Run.of_fresh {moves : List Move} (h : ∀ move ∈ moves, move.who? ≠ some who) :
    Run may feigned who moves false {} := by
  induction moves using List.reverseRecOn with
  | nil => exact .nothing
  | append_singleton moves move ih =>
    exact .other (ih fun earlier hmem => h earlier (List.mem_append_left _ hmem))
      (h move (by simp))

theorem Step.who? {c c' : Course} {move : Move} {late : Bool}
    (h : c.Step may feigned who move late c') : move.who? = some who := by
  cases h <;> rfl

end Course

/-- The end of an eviction does not change what was to be evicted. -/
theorem hosts_set {slots : List (Host × Option Bool)} {i : Nat} {host : Host}
    (hslot : slots[i]? = some (host, none)) (removed : Bool) :
    (slots.set i (host, some removed)).map (·.1) = slots.map (·.1) := by
  have hmap : (slots.map (·.1))[i]? = some host := by
    rw [List.getElem?_map, hslot]
    rfl
  obtain ⟨hlt, he⟩ := List.getElem?_eq_some_iff.mp hmap
  rw [List.map_set, ← he, List.set_getElem_self]

/-- What a demand keeps to, it keeps to after a turn, and the turn takes its course further. -/
theorem Stage.Turns.keeps {σ : Type} {rules : Rules σ} {who : Nat} {x x' : σ} {old new : Stage}
    {move : Move} {late : Bool} (h : old.Turns rules who x move late x' new)
    {may : Course → Query → Prop} {ends : Course → Reply → Prop} {c : Course}
    (hold : old.Keeps may ends c) :
    ∃ c', c.Step may rules.feigned who move late c' ∧ new.Keeps may ends c' := by
  cases h with
  | reads next now => exact ⟨_, .reads hold.2.1 now, hold.1, hold.2.2 now⟩
  | @draws next uuid x' hdrawn => exact ⟨_, .draws hold.2.1 uuid, hold.1, hold.2.2 uuid⟩
  | notes event next => exact ⟨_, .notes hold.2.1, hold.1, hold.2.2⟩
  | asks limit next late hrun => exact ⟨_, .asks hold.2.1 _ late, hold.1, hold.2.2 _⟩
  | fails limit next hmiss => exact ⟨_, .misses hold.2.1 (.missed hmiss), hold.1, hold.2.2 _⟩
  | misses limit next hunserved => exact ⟨_, .misses hold.2.1 hunserved, hold.1, hold.2.2 _⟩
  | sweeps hosts limit next =>
    refine ⟨_, .sweeps hold.2.1 hold.1, ⟨c, ?_, rfl⟩, hold.2.2⟩
    rw [List.map_map]
    exact (List.map_id hosts).symm ▸ hold.2.1
  | evicts next i late hslot hrun =>
    obtain ⟨⟨past, hmay, rfl⟩, hkeeps⟩ := hold
    exact ⟨_, .evicts hslot _ late, ⟨past, (hosts_set hslot _).symm ▸ hmay, rfl⟩, hkeeps⟩
  | stalls next i hslot hmiss | spares next i hslot =>
    obtain ⟨⟨past, hmay, rfl⟩, hkeeps⟩ := hold
    exact ⟨_, .spares hslot, ⟨past, (hosts_set hslot _).symm ▸ hmay, rfl⟩, hkeeps⟩
  | returns next hover =>
    obtain ⟨⟨past, hmay, rfl⟩, hkeeps⟩ := hold
    exact ⟨_, .returns, rfl, hkeeps _⟩

end Rendezvous
