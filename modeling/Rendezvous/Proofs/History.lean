import Rendezvous.Proofs.Quiet
import Rendezvous.Simulation.Session

/-!
# Histories of a directory

`history` lists what the demands of a run came to: the reply to each, the time it went by, and the
ids drawn for it. From a history one reads which hosts should be there: `Present` is a host that was
registered, was not removed since and not evicted, as its last renewal left it.
-/

namespace Rendezvous

/-! ## Draws -/

namespace Draws

def skip (d : Draws) : (count : Nat) → Draws
  | 0 => d
  | count + 1 => d.draw.2.skip count

def next (d : Draws) : (count : Nat) → List Uuid
  | 0 => []
  | count + 1 => d.draw.1 :: d.draw.2.next count

/-- The ids that were drawn on the way from one state of the source to a later one. -/
def idsUntil (d later : Draws) : List String := (d.next (later.taken - d.taken)).map Uuid.simple

theorem taken_draw (d : Draws) : d.draw.2.taken = d.taken + 1 := by
  unfold draw
  split <;> rfl

theorem taken_skip (d : Draws) (count : Nat) : (d.skip count).taken = d.taken + count := by
  induction count generalizing d with
  | zero => rfl
  | succ count ih =>
    rw [skip, ih, taken_draw]
    omega

theorem idsUntil_skip (d : Draws) (count : Nat) :
    d.idsUntil (d.skip count) = (d.next count).map Uuid.simple := by
  rw [idsUntil, taken_skip, Nat.add_sub_cancel_left]

end Draws

/-- The id that an insert settles for was drawn by it. -/
theorem Memory.freshId_drawn {hosts : Index Host} {tries : Nat} {draws rest : Draws} {id : String}
    (h : Memory.freshId hosts tries draws = (some id, rest)) :
    ∃ count, rest = draws.skip count ∧ id ∈ (draws.next count).map Uuid.simple := by
  induction tries generalizing draws with
  | zero => cases h
  | succ tries ih =>
    simp only [Memory.freshId] at h
    split at h
    · obtain ⟨count, hr, hid⟩ := ih h
      exact ⟨count + 1, hr, List.mem_cons_of_mem _ hid⟩
    · cases h
      exact ⟨1, rfl, List.mem_cons_self⟩

theorem Memory.insert_drawn {m m' : Memory} {candidate : Candidate} {draws rest : Draws}
    {h : Host} (hi : m.insert candidate draws = (some h, m', rest)) :
    h.id ∈ draws.idsUntil rest := by
  unfold Memory.insert at hi
  split at hi
  · cases hi
  · split at hi
    · cases hi
    · next id rest' hf =>
      cases hi
      obtain ⟨count, rfl, hid⟩ := Memory.freshId_drawn hf
      rw [Draws.idsUntil_skip]
      exact hid

namespace Interaction

variable {α β : Type} (clock : Nat → Instant)

def idsBy : Interaction α → World → List String
  | .done _, _ => []
  | .readClock next, w =>
    let (now, w) := { w with clock := clock w.clockReads }.readClock
    (next now).idsBy w
  | .draw next, w =>
    let (uuid, w) := w.draw
    (next uuid).idsBy w
  | .call command limit next, w =>
    let (outcome, after) := w.call command limit
    w.draws.idsUntil after.draws ++ (next outcome).idsBy after
  | .evict hosts limit next, w =>
    let (removed, after) := w.evict hosts limit
    w.draws.idsUntil after.draws ++ (next removed).idsBy after
  | .log event next, w => next.idsBy (w.note event)

theorem runBy_map (f : α → β) (i : Interaction α) (w : World) :
    (i.map f).runBy clock w = (f (i.runBy clock w).1, (i.runBy clock w).2) := by
  induction i generalizing w with
  | done value => rfl
  | readClock next ih => exact ih _ _
  | draw next ih => exact ih _ _
  | call command limit next ih => exact ih _ _
  | evict hosts limit next ih => exact ih _ _
  | log event next ih => exact ih _

theorem idsBy_map (f : α → β) (i : Interaction α) (w : World) :
    (i.map f).idsBy clock w = i.idsBy clock w := by
  induction i generalizing w with
  | done value => rfl
  | readClock next ih => exact ih _ _
  | draw next ih => exact ih _ _
  | call command limit next ih => exact congrArg (_ ++ ·) (ih _ _)
  | evict hosts limit next ih => exact congrArg (_ ++ ·) (ih _ _)
  | log event next ih => exact ih _

end Interaction

/-! ## Histories -/

structure Transaction where
  demand : Demand
  /-- What the clock showed when it was last read. -/
  moment : Instant
  reply : Reply
  /-- The ids that the store drew. -/
  ids : List String
  before : Backing
  after : Backing

def Demand.isOperation : Demand → Bool
  | .register _ | .findById _ | .findByCode _ | .deleteById _ | .deleteByCode _ | .refresh _
  | .listLive => true
  | .readSettings | .updateSettings _ _ | .authorize _ | .http _ => false

section

variable (terms : Terms) (guard : Guard) (clock : Nat → Instant)

def serve (w : World) (demand : Demand) : Transaction × World :=
  let i := demand.interaction terms guard
  let (reply, after) := i.runBy clock w
  (⟨demand, clock (after.clockReads - 1), reply, i.idsBy clock w, w.backing, after.backing⟩, after)

def history (w : World) : List Demand → List Transaction
  | [] => []
  | demand :: rest =>
    let (transaction, after) := serve terms guard clock w demand
    transaction :: history after rest

theorem map_demand_history (w : World) (demands : List Demand) :
    (history terms guard clock w demands).map (·.demand) = demands := by
  induction demands generalizing w with
  | nil => rfl
  | cons demand rest ih => exact congrArg (demand :: ·) (ih _)

end

/-- An act of a session meets its demand under the readings of the session's clock. -/
theorem Session.act_serve (s : Session) {clock : Nat → Instant} (hw : s.world.Follows clock)
    (demand : Demand) : s.act (.serve demand)
      = ((serve s.terms s.guard clock s.world demand).1.reply,
          (serve s.terms s.guard clock s.world demand).2) :=
  Interaction.run_eq_runBy _ hw

namespace Transaction

def registered? (d : Transaction) : Option Host :=
  match d.demand, d.reply with
  | .register _, .host h => some h
  | _, _ => none

/-- The id of the host that was registered or refreshed. -/
def renewed? (d : Transaction) : Option String :=
  match d.demand, d.reply with
  | .register _, .host h => some h.id
  | .refresh _, .host h => some h.id
  | _, _ => none

def removed? (d : Transaction) : Option String :=
  match d.demand, d.reply with
  | .deleteById _, .host h => some h.id
  | .deleteByCode _, .host h => some h.id
  | _, _ => none

end Transaction

/-- A whole lifetime has gone by since the renewal. -/
def Terms.Expired (terms : Terms) (renewal now : Instant) : Prop :=
  terms.lifetime.nanoseconds ≤ (now.since renewal).nanoseconds

instance (terms : Terms) (renewal now : Instant) : Decidable (terms.Expired renewal now) :=
  inferInstanceAs (Decidable (_ ≤ _))

theorem Terms.isLive_iff {terms : Terms} {renewal now : Instant} :
    Expiry.isLive terms.lifetime renewal now = true ↔ ¬ terms.Expired renewal now := by
  rw [Expiry.isLive, decide_eq_true_eq, Terms.Expired, Int.not_le]

/-- When an id was last registered or refreshed. -/
def lastRenewal (past : List Transaction) (id : String) : Option Instant :=
  ((past.filter fun d => d.renewed? = some id).getLast?).map (·.moment)

def Removed (past : List Transaction) (id : String) : Prop := ∃ d ∈ past, d.removed? = some id

/-- A listing found the host with the id expired, by the renewal it had at that moment. -/
def Evicted (terms : Terms) (past : List Transaction) (id : String) : Prop :=
  ∃ before listing rest renewal, past = before ++ listing :: rest ∧
    listing.demand = .listLive ∧ lastRenewal before id = some renewal ∧
    terms.Expired renewal listing.moment

/-- The host should be there: it was registered, it was neither removed nor evicted, and it was
last renewed when it says. -/
structure Present (terms : Terms) (past : List Transaction) (h : Host) : Prop where
  registered : ∃ d ∈ past, ∃ r, d.registered? = some r ∧ h = { r with updatedAt := h.updatedAt }
  renewed : lastRenewal past h.id = some h.updatedAt
  kept : ¬ Removed past h.id
  unswept : ¬ Evicted terms past h.id

/-! ## One transaction more -/

theorem lastRenewal_append (past : List Transaction) (d : Transaction) (id : String) :
    lastRenewal (past ++ [d]) id
      = if d.renewed? = some id then some d.moment else lastRenewal past id := by
  unfold lastRenewal
  rw [List.filter_append]
  split
  · next h => simp [h]
  · next h => simp [h]

theorem removed_append {past : List Transaction} {d : Transaction} {id : String} :
    Removed (past ++ [d]) id ↔ Removed past id ∨ d.removed? = some id := by
  simp [Removed, or_and_right, exists_or]

theorem evicted_append {terms : Terms} {past : List Transaction} {d : Transaction} {id : String} :
    Evicted terms (past ++ [d]) id ↔ Evicted terms past id ∨
      (d.demand = .listLive ∧ ∃ renewal, lastRenewal past id = some renewal ∧
        terms.Expired renewal d.moment) := by
  constructor
  · rintro ⟨before, listing, rest, renewal, hs, hl, hr, he⟩
    rcases List.eq_nil_or_concat rest with rfl | ⟨init, last, rfl⟩
    · obtain ⟨rfl, hd⟩ := List.append_inj' hs rfl
      cases hd
      exact .inr ⟨hl, renewal, hr, he⟩
    · have hs' : past ++ [d] = (before ++ listing :: init) ++ [last] := by
        rw [hs]
        simp
      obtain ⟨rfl, _⟩ := List.append_inj' hs' rfl
      exact .inl ⟨before, listing, init, renewal, rfl, hl, hr, he⟩
  · rintro (⟨before, listing, rest, renewal, rfl, hl, hr, he⟩ | ⟨hl, renewal, hr, he⟩)
    · exact ⟨before, listing, rest ++ [d], renewal, by simp, hl, hr, he⟩
    · exact ⟨past, d, [], renewal, rfl, hl, hr, he⟩

end Rendezvous
