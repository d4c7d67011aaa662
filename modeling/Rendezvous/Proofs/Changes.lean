import Mathlib.Algebra.GroupWithZero.Nat
import Rendezvous.Proofs.Courses

/-!
# What a demand changes

`Move.change?` reads from a move what it changed, and `Memory.Takes` says what that made of the
store. `Told` is the table of the changes that replies tell of. Any demand but a listing makes at
most one change, with its last call of the store (`Course.Run.changes`), and tells of it
(`Demand.Tells.told`).
-/

namespace Rendezvous

/-! ## Changes of the store -/

inductive Change
  | added (host : Host)
  | removed (host : Host)
  /-- The host, as it is afterwards. -/
  | renewed (host : Host)
  /-- The settings document, as it is afterwards. -/
  | merged (document : Json)

def Command.change? : (command : Command) → command.Answer → Option Change
  | .insert _, host => host.map .added
  | .deleteById _, host | .deleteByCode _, host => host.map .removed
  | .touch _ _, host => host.map .renewed
  | .merge _, document => some (.merged document)
  | .findById _, _ | .findByCode _, _ | .list, _ | .settings, _ => none

def Outcome.change? {command : Command} : Outcome command → Option Change
  | .answered answer => command.change? answer
  | .failed _ | .timedOut => none

/-- An answer as if there were nothing tells of no change. -/
theorem Command.change?_empty {command : Command} {answer : command.Answer}
    (h : command.emptyAnswer? = some answer) : command.change? answer = none := by
  cases command <;> cases h <;> rfl

def Move.change? : Move → Option Change
  | .asks _ command answer => command.change? answer
  | .evicts _ _ answer => answer.map .removed
  | _ => none

/-- A host is added by an insert that is answered with it. -/
theorem Move.change?_eq_added {move : Move} {host : Host}
    (h : move.change? = some (.added host)) :
    ∃ who candidate, move = .asks who (.insert candidate) (some host) := by
  cases move with
  | asks who command answer =>
    cases command with
    | insert candidate =>
      obtain ⟨_, rfl, he⟩ := Option.map_eq_some_iff.mp h
      cases he
      exact ⟨who, candidate, rfl⟩
    | deleteById | deleteByCode | touch | merge => simp [Move.change?, Command.change?] at h
    | findById | findByCode | list | settings => cases h
  | evicts who other answer => simp [Move.change?] at h
  | _ => cases h

namespace Memory

/-- What a change makes of a store: nothing else is touched by it. -/
inductive Takes (m : Memory) : Option Change → Memory → Prop
  | still : m.Takes none m
  | added {host : Host} (newId : ∀ h, m.Holds h → h.id ≠ host.id)
    (freeCode : ∀ h, m.Holds h → h.code ≠ host.code) : m.Takes (some (.added host)) (m.add host)
  | removed {host : Host} (held : m.Holds host) : m.Takes (some (.removed host)) (m.remove host)
  | renewed {host : Host} (held : m.Holds host) (moment : Instant) :
    m.Takes (some (.renewed { host with updatedAt := moment }))
      (m.renew { host with updatedAt := moment })
  | merged (patch : Fields) :
    m.Takes (some (.merged (Json.overlay m.settings patch)))
      { m with settings := some (Json.overlay m.settings patch) }

variable {m m' : Memory}

theorem Takes.eq (h : m.Takes none m') : m' = m := by
  cases h
  rfl

variable (hm : m.Consistent)

include hm

theorem takes_deleteById (id : String) :
    m.Takes ((m.deleteById id).1.map .removed) (m.deleteById id).2 := by
  rcases m.deleteById_cases hm id with ⟨he, _⟩ | ⟨h, he, hh, _⟩
  · rw [he]
    exact .still
  · rw [he]
    exact .removed hh

theorem takes_run (draws : Draws) (command : Command) :
    m.Takes (command.change? (m.run draws command).1) (m.run draws command).2.1 := by
  cases command with
  | insert candidate =>
    simp only [Memory.run]
    rcases m.insert_cases candidate draws with ⟨rest, he⟩ | ⟨id, rest, he, hid, hcode⟩
    · rw [he]
      exact .still
    · rw [he]
      exact .added ((findById_eq_none_iff hm).mp hid) ((codes_eq_none_iff hm).mp hcode)
  | deleteById id => exact takes_deleteById hm id
  | deleteByCode code =>
    simp only [Memory.run]
    rcases m.deleteByCode_cases hm code with ⟨he, _⟩ | ⟨h, he, hh, _⟩
    · rw [he]
      exact .still
    · rw [he]
      exact .removed hh
  | touch id moment =>
    simp only [Memory.run]
    rcases m.touch_cases hm id moment with ⟨he, _⟩ | ⟨h, he, hh, _⟩
    · rw [he]
      exact .still
    · rw [he]
      exact .renewed hh moment
  | merge patch => exact .merged patch
  | findById id => exact .still
  | findByCode code => exact .still
  | list => exact .still
  | settings => exact .still

theorem Moved.takes {move : Move} (h : m.Moved move m') : m.Takes move.change? m' := by
  cases h with
  | still hcall => cases move <;> first | exact .still | cases hcall
  | asks who command draws => exact takes_run hm draws command
  | evicts who host => exact takes_deleteById hm host.id

end Memory

theorem MemorySystem.Plays.takes {terms : Terms} {guard : Guard} {start s : MemorySystem}
    {trace : List MemoryTransition}
    (h : start.Plays terms guard trace s) (hm : start.store.Consistent) :
    ∀ b ∈ trace, b.before.store.Takes b.move.change? b.after.store := by
  intro b hb
  obtain ⟨past, run, hmoved⟩ := h.transition b hb
  exact hmoved.takes (run.consistent hm)

/-! ## The changes and reports of one demand -/

def Move.report : Move → Nat
  | .notes _ event => event.evictions
  | _ => 0

/-- The changes that a demand made, in the order in which it made them. -/
def changesBy (who : Nat) (moves : List Move) : List Change := doneBy Move.change? who moves

/-- How many evictions a demand has reported to the log. -/
def reportedBy (who : Nat) (moves : List Move) : Nat :=
  ((moves.filter (·.who? = some who)).map Move.report).sum

section

variable {who : Nat} {move : Move} (past : List Move)

theorem changesBy_own (h : move.who? = some who) :
    changesBy who (past ++ [move]) = changesBy who past ++ move.change?.toList :=
  doneBy_own _ past h

theorem changesBy_other (h : move.who? ≠ some who) :
    changesBy who (past ++ [move]) = changesBy who past :=
  doneBy_other _ past h

theorem reportedBy_own (h : move.who? = some who) :
    reportedBy who (past ++ [move]) = reportedBy who past + move.report := by
  unfold reportedBy
  simp [h]

theorem reportedBy_other (h : move.who? ≠ some who) :
    reportedBy who (past ++ [move]) = reportedBy who past := by
  unfold reportedBy
  simp [h]

end

theorem changesBy_eq_nil {who : Nat} {moves : List Move}
    (h : ∀ move ∈ moves, move.who? ≠ some who) : changesBy who moves = [] :=
  doneBy_eq_nil _ h

theorem reportedBy_eq_zero {who : Nat} {moves : List Move}
    (h : ∀ move ∈ moves, move.who? ≠ some who) : reportedBy who moves = 0 := by
  unfold reportedBy
  rw [List.filter_eq_nil_iff.mpr (by simpa using h)]
  rfl

/-! ## What replies tell of -/

/-- The change that a demand made when it ends with a reply. -/
inductive Told : Demand → Reply → Option Change → Prop
  | refused (demand : Demand) (refusal : Refusal) : Told demand (.refused refusal) none
  | registered (a : Announcement) (host : Host) :
    Told (.register a) (.host host) (some (.added host))
  | foundById (id : String) (host : Host) : Told (.findById id) (.host host) none
  | foundByCode (code : String) (host : Host) : Told (.findByCode code) (.host host) none
  | deletedById (id : String) (host : Host) :
    Told (.deleteById id) (.host host) (some (.removed host))
  | deletedByCode (code : String) (host : Host) :
    Told (.deleteByCode code) (.host host) (some (.removed host))
  | refreshed (id : String) (host : Host) :
    Told (.refresh id) (.host host) (some (.renewed host))
  | settingsRead (document : Option Json) : Told .readSettings (.document document) none
  | settingsUpdated (token : Option String) (body document : Json) :
    Told (.updateSettings token body) (.document (some document)) (some (.merged document))
  | authorized (token : Option String) : Told (.authorize token) .done none

/-! ## Courses -/

variable {terms : Terms} {guard : Guard} {demand : Demand} {c : Course}

/-- The reply of a demand other than a listing tells of what its last call changed. -/
theorem Demand.Tells.told {reply : Reply} (h : demand.Tells guard c reply)
    (hl : demand ≠ .listLive) (hh : ∀ request, demand ≠ .http request) :
    Told demand reply (c.did Outcome.change?) := by
  cases h with
  | refused hu refusal =>
    rw [hu.did fun _ => rfl]
    exact .refused demand refusal
  | @unavailable _ _ _ outcome _ ended miss late =>
    rw [Course.did_of_ended ended]
    cases outcome with
    | answered answer => exact miss.elim
    | failed | timedOut => exact .refused demand _
  | @answered _ _ _ answer _ asks ended decides =>
    rw [Course.did_of_ended ended]
    cases asks with
    | list => exact absurd rfl hl
    | settings =>
      cases decides
      exact .settingsRead answer
    | merge authorized object =>
      cases decides
      exact .settingsUpdated _ _ answer
    | insert a candidate =>
      cases answer with
      | none => cases decides
      | some host =>
        cases decides
        exact .registered a host
    | _ =>
      cases decides
      cases answer <;> constructor
  | listed => exact absurd rfl hl
  | authorized token hu =>
    rw [hu.did fun _ => rfl]
    exact .authorized token
  | http | turnedAway => exact absurd rfl (hh _)

namespace Course.Run

variable {feigned missed : Bool} {who : Nat} {moves : List Move}

/-- A demand other than a listing evicts nothing, and reports nothing. -/
theorem idle (h : Run (demand.May terms guard) feigned who moves missed c)
    (hl : demand ≠ .listLive) (hh : ∀ request, demand ≠ .http request) :
    c.slots = [] ∧ c.owed = 0 ∧ reportedBy who moves = 0 := by
  induction h with
  | nothing => exact ⟨rfl, rfl, rfl⟩
  | other h hne ih => rwa [reportedBy_other _ hne]
  | own h step ih =>
    obtain ⟨hslots, howed, hreported⟩ := ih
    rw [reportedBy_own _ step.who?, hreported, Nat.zero_add]
    cases step with
    | @notes event hmay =>
      have hreport : event.evictions = 0 := hmay.reports.trans howed
      exact ⟨hslots, Nat.sub_eq_zero_of_le (howed ▸ Nat.zero_le _), hreport⟩
    | sweeps hmay =>
      cases hmay.allows with
      | evict => exact absurd rfl hl
      | http => exact absurd rfl (hh _)
    | evicts hslot | spares hslot =>
      rw [hslots] at hslot
      cases hslot
    | returns =>
      rw [hslots]
      exact ⟨rfl, howed, rfl⟩
    | reads | draws | asks | misses => exact ⟨hslots, howed, rfl⟩

/-- A demand other than a listing changes at most what its last call does. -/
theorem changes (h : Run (demand.May terms guard) feigned who moves false c)
    (hl : demand ≠ .listLive) (hh : ∀ request, demand ≠ .http request) :
    changesBy who moves = (c.did Outcome.change?).toList := by
  refine doneBy_eq (fun _ => rfl) ?_ (fun _ _ => rfl) ?_ h rfl
  · rintro command outcome (hmiss | ⟨-, hempty⟩)
    · cases outcome with
      | answered answer => exact hmiss.elim
      | failed | timedOut => rfl
    · exact Command.change?_empty hempty
  · intro moves move late c c' h step hne
    obtain ⟨hslots, -⟩ := h.idle hl hh
    cases step with
    | asks => exact absurd rfl (hne _ _)
    | evicts hslot =>
      rw [hslots] at hslot
      cases hslot
    | _ => rfl

end Course.Run
end Rendezvous
