import Rendezvous.Proofs.Accounts
import Rendezvous.Proofs.Chronicles

/-!
# A host keeps its identity

In a chronicle from an empty store in which no id is drawn twice, a host is the same from its insert
to its removal: `Transition.Treats` says what a step can do to a stored host, `Transition.Lacks`
that a host which was removed is not found again, by whatever key.
`BackingSystem.Chronicle.identified` proves both of every chronicle, over either backing.
-/

namespace Rendezvous

/-! ## What a step does to a host -/

inductive Demand.Removes : Demand → Move → Host → Prop
  | byId (who : Nat) (h : Host) :
    Removes (.deleteById h.id) (.asks who (.deleteById h.id) (some h)) h
  | byCode (who : Nat) (h : Host) :
    Removes (.deleteByCode h.code) (.asks who (.deleteByCode h.code) (some h)) h
  | swept (who : Nat) {host h : Host} (hid : h.id = host.id) :
    Removes .listLive (.evicts who host (some h)) h

namespace Transition

/-- What can become of a stored host: nothing, a refresh or a removal, each by its own key. -/
inductive Treats (t : Transition) (h : Host) : Prop
  | kept (held : t.after.backing.Holds h)
  | refreshed (who : Nat) (moment : Instant) (demand : t.before.Meets who (.refresh h.id))
    (move : t.move? = some (.asks who (.touch h.id moment) (some { h with updatedAt := moment })))
    (held : t.after.backing.Holds { h with updatedAt := moment })
  | removed {who : Nat} {demand : Demand} {move : Move} (meets : t.before.Meets who demand)
    (own : move.who? = some who) (made : t.move? = some move) (removes : demand.Removes move h)
    (gone : ∀ other, t.after.backing.Holds other → other.id ≠ h.id)

/-- What the step changes in the store, and the demand that does it. -/
inductive Does (t : Transition) : Change → Prop
  | registers (who : Nat) {candidate : Candidate} {host : Host} (a : Announcement)
    (made : host = candidate.host host.id) (meets : t.before.Meets who (.register a))
    (move : t.move? = some (.asks who (.insert candidate) (some host)))
    (drawn : host.id ∈ t.ids) : Does t (.added host)
  | deletesById (who : Nat) {host : Host} (meets : t.before.Meets who (.deleteById host.id))
    (move : t.move? = some (.asks who (.deleteById host.id) (some host))) : Does t (.removed host)
  | deletesByCode (who : Nat) {host : Host} (meets : t.before.Meets who (.deleteByCode host.code))
    (move : t.move? = some (.asks who (.deleteByCode host.code) (some host))) :
    Does t (.removed host)
  | sweeps (who : Nat) {other host : Host} (hid : host.id = other.id)
    (meets : t.before.Meets who .listLive)
    (move : t.move? = some (.evicts who other (some host))) : Does t (.removed host)
  | refreshes (who : Nat) {host : Host} (meets : t.before.Meets who (.refresh host.id))
    (move : t.move? = some (.asks who (.touch host.id host.updatedAt) (some host))) :
    Does t (.renewed host)
  | merges (document : Json) : Does t (.merged document)

def Enters (t : Transition) (h : Host) : Prop :=
  ∃ who candidate a, t.move? = some (.asks who (.insert candidate) (some h)) ∧
    h = candidate.host h.id ∧ t.before.Meets who (.register a)

/-- The host is stored before the step, and nothing under its id afterwards. -/
def Loses (t : Transition) (h : Host) : Prop :=
  t.before.backing.Holds h ∧ ∀ other, t.after.backing.Holds other → other.id ≠ h.id

/-- The demand looks for the id, to find, delete or refresh the host. -/
inductive Seeks (t : Transition) (who : Nat) (id : String) (found : Option Host) : Prop
  | findById (move : t.move? = some (.asks who (.findById id) found))
  | deleteById (move : t.move? = some (.asks who (.deleteById id) found))
  | touch (moment : Instant) (move : t.move? = some (.asks who (.touch id moment) found))

/-- What the demand replies to a call that was carried out in the step. -/
structure Replies (t : Transition) (who : Nat) (reply : Reply) : Prop where
  heard : t.late = false → t.after.Left who (.done reply)
  late : t.late = true →
    ∃ trouble, trouble.isLate = true ∧ t.after.Left who (.done (.refused (.unavailable trouble)))

/-- The host is gone for good: whatever reaches the store does not find it. Its code leads to the
host that has it now, if there is one. `last` is the system in the end. -/
structure Lacks (last : BackingSystem) (t : Transition) (h : Host) : Prop where
  held : ∀ other, t.after.backing.Holds other → other.id ≠ h.id
  sought : ∀ {who found}, t.Seeks who h.id found →
    found = none ∧ t.Replies who (.refused .notFound)
  evicted : ∀ {who host answer}, t.move? = some (.evicts who host answer) → host.id = h.id →
    answer = none
  listed : ∀ {who snapshot}, t.move? = some (.asks who .list snapshot) →
    (∀ other ∈ snapshot, other.id ≠ h.id) ∧
      ∀ thread hosts, last.threads[who]? = some thread →
        thread.stage.answer? = some (.hosts hosts) → ∀ other ∈ hosts, other.id ≠ h.id
  byCode : ∀ {who found}, t.move? = some (.asks who (.findByCode h.code) found) →
    (∀ other, found = some other ↔ t.before.backing.Holds other ∧ other.code = h.code) ∧
      (∀ other ∈ found, other.id ≠ h.id) ∧ t.Replies who (.ofFound found)

end Transition

/-- What the hosts of a chronicle are through all of its steps. -/
structure Identified (trace : List Transition) (last : BackingSystem) : Prop where
  treated : ∀ t ∈ trace, ∀ h, t.before.backing.Holds h → t.Treats h
  /-- A stored host was stored before, refreshed at most since, or it was registered just now. -/
  entered : ∀ t ∈ trace, ∀ h, t.after.backing.Holds h →
    (∃ old, t.before.backing.Holds old ∧ old.Kept h) ∨ t.Enters h
  /-- Under one id there is one host, refreshed at most. -/
  constant : trace.Pairwise fun t u => ∀ h later, t.before.backing.Holds h →
    u.after.backing.Holds later → later.id = h.id → h.Kept later
  lost : trace.Pairwise fun t u => ∀ h, t.Loses h → u.Lacks last h

/-! ## From what each step makes of the hosts -/

/-- A host that is held after a change was held before, refreshed at most, or it was added. -/
theorem Change.Makes.kept_or_added {held held' : Host → Prop} {change? : Option Change}
    (hm : Change.Makes held held' change?) {h : Host} (hh : held' h) :
    (∃ old, held old ∧ old.Kept h) ∨ change? = some (.added h) := by
  cases hm with
  | still same => exact .inl ⟨h, (same h).mp hh, .refl h⟩
  | merged document same => exact .inl ⟨h, (same h).mp hh, .refl h⟩
  | added newId freeCode after =>
    rcases (after h).mp hh with rfl | hold
    · exact .inr rfl
    · exact .inl ⟨h, hold, .refl h⟩
  | removed before after => exact .inl ⟨h, ((after h).mp hh).1, .refl h⟩
  | @renewed old before moment after =>
    rcases (after h).mp hh with rfl | ⟨hold, -⟩
    · exact .inl ⟨old, before, rfl⟩
    · exact .inl ⟨h, hold, .refl h⟩

/-- A listing whose snapshot was answered tells of hosts of the snapshot only. -/
theorem Demand.Tells.listed_sub {guard : Guard} {demand : Demand} {c : Course} {hosts : List Host}
    (h : demand.Tells guard c (.hosts hosts)) {snapshot : List Host} {late : Bool}
    (hended : c.ended = some ⟨.list, .heard snapshot late⟩) : ∀ h ∈ hosts, h ∈ snapshot := by
  cases h with
  | answered asks ended decides =>
    obtain rfl := congrArg Sigma.fst (Option.some.inj (hended.symm.trans ended))
    cases decides
  | listed ended sub =>
    cases late with
    | false =>
      cases hended.symm.trans ended
      exact sub
    | true => cases hended.symm.trans ended

/-- What a demand replies to a call that alone decides, unless there is a note to write first. -/
theorem BackingSystem.Called.replies {terms : Terms} {guard : Guard} {past : List Transition}
    {t : Transition} {who : Nat}
    {command : Command} {answer : command.Answer} {demand : Demand} {c : Course}
    {rest : Interaction Reply} (h : Called terms guard past t who command answer demand c rest)
    (hinsert : ∀ candidate, command ≠ .insert candidate) {reply : Reply}
    (hreply : command.reply? answer = some reply)
    (hlogs : ∀ event, ¬ (Outcome.answered answer).Logs event) : t.Replies who reply := by
  have hlist : command ≠ .list := by
    rintro rfl
    cases hreply
  have hleft := h.left
  have hkeeps := h.keeps
  cases hlate : t.late with
  | false =>
    rw [hlate] at hkeeps
    obtain ⟨other, rfl, htells⟩ := hkeeps.replies h.direct rfl hinsert hlist hlogs
    refine ⟨fun _ => ?_, fun he => Bool.noConfusion (hlate.symm.trans he)⟩
    rcases htells.of_settled h.direct rfl hinsert hlist with ⟨_, ⟨⟩, hother⟩ | ⟨_, -, hmiss, -⟩
    · cases hother.symm.trans hreply
      exact hleft
    · exact hmiss.elim
  | true =>
    rw [hlate] at hkeeps
    obtain ⟨other, rfl, htells⟩ := hkeeps.replies h.direct rfl hinsert hlist fun _ => nofun
    refine ⟨fun he => Bool.noConfusion (hlate.symm.trans he), fun _ => ?_⟩
    rcases htells.of_settled h.direct rfl hinsert hlist with ⟨_, ⟨⟩, _⟩ | ⟨trouble, rfl, -, hpassed⟩
    exact ⟨trouble, hpassed rfl, hleft⟩

/-- The id of a host that was inserted was drawn in the same step. -/
theorem BackingSystem.Moves.insert_drawn {terms : Terms} {guard : Guard} {feigned : Bool}
    {t : Transition} (h : t.before.Moves terms guard feigned t.move? t.late t.after) {who : Nat}
    {candidate : Candidate} {host : Host}
    (hm : t.move? = some (.asks who (.insert candidate) (some host))) : host.id ∈ t.ids := by
  rw [hm] at h
  obtain ⟨_, _, _, -, hrun, hx, -⟩ := h.step.asks_inv
  have hdraws : t.after.draws = (t.before.backing.run t.before.draws (.insert candidate)).2.2 :=
    congrArg Prod.snd hx
  rw [Transition.ids, hm]
  show host.id ∈ t.before.draws.idsUntil t.after.draws
  rw [hdraws]
  exact Backing.insert_drawn hrun

namespace BackingSystem.Runs

variable {terms : Terms} {guard : Guard} {feigned : Bool} {start s : BackingSystem}
  {trace past later : List Transition} {t : Transition}

section

variable (h : start.Runs terms guard feigned trace s) (hs : start.threads = [])
  (hb : start.backing.Sound) (ho : Ordinary (movesOf trace)) (htrace : trace = past ++ t :: later)

include h hs hb ho htrace

/-- What a step changes, it changes by a demand that asks for just that. -/
theorem does {change : Change} (hc : t.move?.bind Move.change? = some change) : t.Does change := by
  obtain ⟨move, hmove, hchange⟩ := Option.bind_eq_some_iff.mp hc
  cases move with
  | asks who command answer =>
    obtain ⟨hfits, demand, c, rest, hcalled⟩ := h.called hs hb ho htrace hmove
    have hmeets := hcalled.meets
    cases hcalled.asks with
    | insert a candidate =>
      obtain ⟨host, rfl, rfl⟩ := Option.map_eq_some_iff.mp hchange
      obtain ⟨id, rfl⟩ := hfits host rfl
      exact .registers who a rfl hmeets hmove ((h.split htrace).2.insert_drawn hmove)
    | deleteById id =>
      obtain ⟨host, rfl, rfl⟩ := Option.map_eq_some_iff.mp hchange
      obtain ⟨-, rfl⟩ := (hfits host).mp rfl
      exact .deletesById who hmeets hmove
    | deleteByCode code =>
      obtain ⟨host, rfl, rfl⟩ := Option.map_eq_some_iff.mp hchange
      obtain ⟨-, rfl⟩ := (hfits host).mp rfl
      exact .deletesByCode who hmeets hmove
    | touch id moment =>
      obtain ⟨host, rfl, rfl⟩ := Option.map_eq_some_iff.mp hchange
      obtain ⟨old, -, rfl, rfl⟩ := (hfits host).mp rfl
      exact .refreshes who hmeets hmove
    | merge =>
      cases hchange
      exact .merges _
    | findById | findByCode | list | settings => cases hchange
  | evicts who other answer =>
    obtain ⟨hfits, hmeets⟩ := h.evicts_inv hs hb ho htrace hmove
    obtain ⟨host, rfl, rfl⟩ := Option.map_eq_some_iff.mp hchange
    exact .sweeps who ((hfits host).mp rfl).2 hmeets hmove
  | _ => cases hchange

theorem treats {host : Host} (hh : t.before.backing.Holds host) : t.Treats host := by
  have hmakes := h.makes hs hb ho htrace
  have hsound := (h.before hs hb ho htrace).2.2.2
  generalize hc : t.move?.bind Move.change? = change at hmakes
  cases hmakes with
  | still same => exact .kept ((same host).mpr hh)
  | merged document same => exact .kept ((same host).mpr hh)
  | added newId freeCode after => exact .kept ((after host).mpr (.inr hh))
  | @removed gone before after =>
    by_cases hid : host.id = gone.id
    · obtain rfl := hsound.eq_of_id hh before hid
      have hgone : ∀ other, t.after.backing.Holds other → other.id ≠ host.id := fun other hother =>
        ((after other).mp hother).2
      cases h.does hs hb ho htrace hc with
      | deletesById who meets move => exact .removed meets rfl move (.byId who host) hgone
      | deletesByCode who meets move => exact .removed meets rfl move (.byCode who host) hgone
      | sweeps who hid meets move => exact .removed meets rfl move (.swept who hid) hgone
    · exact .kept ((after host).mpr ⟨hh, hid⟩)
  | @renewed old before moment after =>
    by_cases hid : host.id = old.id
    · obtain rfl := hsound.eq_of_id hh before hid
      cases h.does hs hb ho htrace hc with
      | refreshes who meets move =>
        exact .refreshed who moment meets move ((after _).mpr (.inl rfl))
    · exact .kept ((after host).mpr (.inr ⟨hh, hid⟩))

theorem enters_or_kept {host : Host} (hh : t.after.backing.Holds host) :
    (∃ old, t.before.backing.Holds old ∧ old.Kept host) ∨ t.Enters host ∧ host.id ∈ t.ids := by
  rcases (h.makes hs hb ho htrace).kept_or_added hh with hold | hc
  · exact .inl hold
  · cases h.does hs hb ho htrace hc with
    | registers who a made meets move drawn =>
      exact .inr ⟨⟨who, _, a, move, made, meets⟩, drawn⟩

end

theorem listed (h : start.Runs terms guard feigned trace s) (hs : start.threads = []) {who : Nat}
    {thread : Thread} (hw : s.threads[who]? = some thread) {snapshot hosts : List Host}
    (hmem : .asks who .list snapshot ∈ movesOf trace)
    (ha : thread.stage.answer? = some (.hosts hosts)) : ∀ h ∈ hosts, h ∈ snapshot := by
  obtain ⟨missed, c, hrun, hkeeps, -⟩ := h.course hs hw
  obtain ⟨late, hended⟩ := hrun.ended_of_asks hmem fun _ => nofun
  obtain ⟨demand, stage⟩ := thread
  cases stage with
  | evicting slots next => cases ha
  | going i =>
    obtain ⟨c', he, ⟨reply, hreply, hends⟩ | ⟨hnone, -⟩⟩ := hkeeps.2.answer?_cases
    · cases hreply.symm.trans ha
      exact (hends.tells.of_ended he.symm).listed_sub hended
    · cases hnone.symm.trans ha

end BackingSystem.Runs

/-! ## Hosts and the ids that were drawn -/

namespace BackingSystem

/-- The stored hosts are known by the ids that were drawn for them, and by the steps before. -/
structure Registers (trace : List Transition) (s : BackingSystem) : Prop where
  drawn : ∀ h, s.backing.Holds h → h.id ∈ idsDrawn trace
  past : ∀ t ∈ trace, ∀ h, t.before.backing.Holds h → h.id ∈ idsDrawn trace
  constant : ∀ t ∈ trace, ∀ h later, t.before.backing.Holds h → s.backing.Holds later →
    later.id = h.id → h.Kept later
  lost : ∀ t ∈ trace, ∀ h, t.Loses h → ∀ other, s.backing.Holds other → other.id ≠ h.id

/-- One step more: what is stored afterwards was there before, or has an id of its own. -/
theorem Registers.append {trace : List Transition} {s : BackingSystem} (hr : Registers trace s)
    (hsound : s.backing.Sound) {move? : Option Move} {late : Bool} {s' : BackingSystem}
    (hd : (idsDrawn (trace ++ [⟨s, move?, late, s'⟩])).Nodup)
    (hfrom : ∀ h, s'.backing.Holds h → (∃ old, s.backing.Holds old ∧ old.Kept h) ∨
      h.id ∈ (Transition.mk s move? late s').ids) :
    Registers (trace ++ [⟨s, move?, late, s'⟩]) s' := by
  rw [idsDrawn_append, List.nodup_append] at hd
  have hfresh : ∀ {h later : Host}, h.id ∈ idsDrawn trace →
      later.id ∈ (Transition.mk s move? late s').ids → later.id ≠ h.id :=
    fun hold hnew he => hd.2.2 _ hold _ hnew he.symm
  constructor
  · intro h hh
    rw [idsDrawn_append, List.mem_append]
    rcases hfrom h hh with ⟨old, hold, hkept⟩ | hid
    · exact .inl (hkept.id_eq ▸ hr.drawn old hold)
    · exact .inr hid
  · intro t ht h hh
    rw [idsDrawn_append, List.mem_append]
    rcases List.mem_append.mp ht with ht | ht
    · exact .inl (hr.past t ht h hh)
    · obtain rfl := List.mem_singleton.mp ht
      exact .inl (hr.drawn h hh)
  · intro t ht h later hh hlater hid
    rcases List.mem_append.mp ht with ht | ht
    · rcases hfrom later hlater with ⟨old, hold, hkept⟩ | hnew
      · exact (hr.constant t ht h old hh hold (hkept.id_eq.symm.trans hid)).trans hkept
      · exact absurd hid (hfresh (hr.past t ht h hh) hnew)
    · obtain rfl := List.mem_singleton.mp ht
      rcases hfrom later hlater with ⟨old, hold, hkept⟩ | hnew
      · obtain rfl := hsound.eq_of_id hold hh (hkept.id_eq.symm.trans hid)
        exact hkept
      · exact absurd hid (hfresh (hr.drawn h hh) hnew)
  · intro t ht h hloses other hother
    rcases List.mem_append.mp ht with ht | ht
    · rcases hfrom other hother with ⟨old, hold, hkept⟩ | hnew
      · exact hkept.id_eq ▸ hr.lost t ht h hloses old hold
      · exact hfresh (hr.past t ht h hloses.1) hnew
    · obtain rfl := List.mem_singleton.mp ht
      exact hloses.2 other hother

namespace IsNew

variable {start : BackingSystem} (h : start.IsNew)

include h

theorem sound : start.backing.Sound := by
  cases h with
  | memory draws => exact Backing.sound_memory
  | database draws => exact Backing.sound_database

theorem not_holds (host : Host) : ¬ start.backing.Holds host := by
  cases h with
  | memory draws => exact Memory.not_holds_empty host
  | database draws => exact fun hh => by cases hh

end IsNew

namespace Runs

variable {terms : Terms} {guard : Guard} {feigned : Bool} {start s : BackingSystem}
  {trace past later : List Transition}
  {t u : Transition}

theorem registers (h : start.Runs terms guard feigned trace s) (hnew : start.IsNew)
    (ho : Ordinary (movesOf trace)) (hd : (idsDrawn trace).Nodup) : Registers trace s := by
  induction h with
  | nil =>
    exact ⟨fun host hh => (hnew.not_holds host hh).elim, fun _ ht => (by cases ht),
      fun _ ht => (by cases ht), fun _ ht => (by cases ht)⟩
  | snoc run step ih =>
    have hpast := ho
    rw [movesOf_append] at hpast
    have hids := hd
    rw [idsDrawn_append, List.nodup_append] at hids
    have hr := ih hpast.of_append hids.1
    refine hr.append (run.sound hnew.threads hnew.sound hpast.of_append) hd fun host hh => ?_
    refine ((run.snoc step).enters_or_kept hnew.threads hnew.sound ho rfl hh).imp_right ?_
    exact fun ⟨_, hid⟩ => hid

section

variable (h : start.Runs terms guard feigned trace s) (hnew : start.IsNew)
  (ho : Ordinary (movesOf trace)) (hd : (idsDrawn trace).Nodup)
  (htrace : trace = past ++ u :: later)

include h hnew ho hd htrace

theorem registers_at : Registers past u.before ∧ Registers (past ++ [u]) u.after := by
  obtain ⟨run, step, hpast, -⟩ := h.before hnew.threads hnew.sound ho htrace
  have hsplit : trace = (past ++ [u]) ++ later := by simp [htrace]
  have ho' : Ordinary (movesOf (past ++ [u])) := by
    rw [hsplit, movesOf, List.filterMap_append] at ho
    exact ho.of_append
  have hd' : (idsDrawn (past ++ [u])).Nodup := by
    rw [hsplit, idsDrawn, List.flatMap_append, List.nodup_append] at hd
    exact hd.1
  refine ⟨run.registers hnew hpast ?_, (run.snoc step).registers hnew ho' hd'⟩
  rw [idsDrawn_append, List.nodup_append] at hd'
  exact hd'.1

theorem lacks (ht : t ∈ past) {host : Host} (hloses : t.Loses host) : u.Lacks s host := by
  obtain ⟨hbefore, hafter⟩ := h.registers_at hnew ho hd htrace
  have hgone := hbefore.lost t ht host hloses
  have hasks {who command answer} (hm : u.move? = some (.asks who command answer)) :=
    h.called hnew.threads hnew.sound ho htrace hm
  constructor
  · exact hafter.lost t (List.mem_append_left _ ht) host hloses
  · intro who found hseeks
    cases hseeks with
    | findById hm =>
      obtain ⟨hfits, demand, c, rest, hcalled⟩ := hasks hm
      cases found with
      | none => exact ⟨rfl, hcalled.replies (fun _ => nofun) rfl fun _ => nofun⟩
      | some other => exact absurd ((hfits other).mp rfl).2 (hgone other ((hfits other).mp rfl).1)
    | deleteById hm =>
      obtain ⟨hfits, demand, c, rest, hcalled⟩ := hasks hm
      cases found with
      | none => exact ⟨rfl, hcalled.replies (fun _ => nofun) rfl fun _ => nofun⟩
      | some other => exact absurd ((hfits other).mp rfl).2 (hgone other ((hfits other).mp rfl).1)
    | touch moment hm =>
      obtain ⟨hfits, demand, c, rest, hcalled⟩ := hasks hm
      cases found with
      | none => exact ⟨rfl, hcalled.replies (fun _ => nofun) rfl fun _ => nofun⟩
      | some other =>
        obtain ⟨old, hold, hid, -⟩ := (hfits other).mp rfl
        exact absurd hid (hgone old hold)
  · intro who other answer hm hid
    obtain ⟨hfits, -⟩ := h.evicts_inv hnew.threads hnew.sound ho htrace hm
    cases answer with
    | none => rfl
    | some found =>
      obtain ⟨hheld, hfound⟩ := (hfits found).mp rfl
      exact absurd (hfound.trans hid) (hgone found hheld)
  · intro who snapshot hm
    obtain ⟨⟨-, hmem⟩, -⟩ := hasks hm
    have hids : ∀ other ∈ snapshot, other.id ≠ host.id :=
      fun other hother => hgone other ((hmem other).mp hother)
    refine ⟨hids, fun thread hosts hw ha other hother => hids other ?_⟩
    exact h.listed hnew.threads hw (mem_movesOf (by rw [htrace]; simp) hm) ha other hother
  · intro who found hm
    obtain ⟨hfits, demand, c, rest, hcalled⟩ := hasks hm
    exact ⟨hfits, fun other hother => hgone other ((hfits other).mp hother).1,
      hcalled.replies (fun _ => nofun) rfl fun _ => nofun⟩

end

end Runs

namespace Chronicle

variable {terms : Terms} {guard : Guard} {start s : BackingSystem} {trace : List Transition}

/-- Hosts keep their identity in every chronicle from an empty store in which no id is drawn twice:
each step leaves a stored host as it is, refreshes it or removes it, by a demand for that host; once
removed it is not found again, although its code may lead to another host. -/
theorem identified (h : start.Chronicle terms guard trace s) (hnew : start.IsNew)
    (ho : Ordinary (movesOf trace)) (hd : (idsDrawn trace).Nodup) : Identified trace s := by
  have hpairs : ∀ {R : Transition → Transition → Prop},
      (∀ {past later t u}, trace = past ++ u :: later → t ∈ past → R t u) → trace.Pairwise R := by
    intro R hR
    refine List.pairwise_iff_getElem.mpr fun i j hi hj hij => ?_
    refine @hR (trace.take j) (trace.drop (j + 1)) _ _ ?_ ?_
    · rw [List.getElem_cons_drop, List.take_append_drop]
    · exact List.mem_take_iff_getElem.mpr ⟨i, by omega, rfl⟩
  refine ⟨fun t ht host hh => ?_, fun t ht host hh => ?_, hpairs ?_, hpairs ?_⟩
  · obtain ⟨past, later, htrace⟩ := List.append_of_mem ht
    exact h.treats hnew.threads hnew.sound ho htrace hh
  · obtain ⟨past, later, htrace⟩ := List.append_of_mem ht
    exact (h.enters_or_kept hnew.threads hnew.sound ho htrace hh).imp_right And.left
  · intro past later t u htrace ht host other hh hother hid
    exact (h.registers_at hnew ho hd htrace).2.constant t (List.mem_append_left _ ht) host other hh
      hother hid
  · intro past later t u htrace ht host hloses
    exact h.lacks hnew ho hd htrace ht hloses

end Chronicle
end BackingSystem

/-! ### A code that is given to another host -/

namespace BackingSystem

def heir : Host := { idleHost with id := "00000000000040008000000000000003" }

theorem idle_run : (Backing.memory {}).run idleDraws (.insert idleCandidate)
    = (.answered (some idleHost), .memory (Memory.add {} idleHost), idleDraws.draw.2) := by
  rw [Backing.run, idle_insert]

theorem heir_id : idleDraws.draw.2.draw.1.simple = heir.id := by decide +kernel

theorem heir_run : (Backing.memory {}).run idleDraws.draw.2 (.insert idleCandidate)
    = (.answered (some heir), .memory (Memory.add {} heir), idleDraws.draw.2.draw.2) := by
  rw [Backing.run, insert_idle heir_id]
  rfl

def idleBackingSystem : BackingSystem where
  backing := .memory (Memory.add {} idleHost)
  draws := idleDraws.draw.2
  threads := [⟨idleDemand, .going (.log (.registered idleHost) (.done (.host idleHost)))⟩]

theorem leads_idleBackingSystem : Leads minuteTerms {} { backing := .memory {} }
    [.starts idleDemand, .reads 0 minuteStart, .draws 0,
      .asks 0 (.insert idleCandidate) (some idleHost)] [idleHost.id] idleBackingSystem := by
  obtain ⟨read, draw, next, hi, hread, hdraw, hstored⟩ := idleDemand_interaction
  have h0 : Leads minuteTerms {} { backing := .memory {} } [] [] { backing := .memory {} } := .nil
  have h1 := h0.starts idleDemand
  rw [hi] at h1
  have h2 := h1.reads [] [] minuteStart
  rw [hread] at h2
  have h3 := h2.draws [] [] ({} : Draws).draw.1 idleDraws
  rw [hdraw] at h3
  have h4 := h3.asks [] [] idle_run
  rw [hstored] at h4
  rw [← idle_id]
  exact h4

theorem identified_heir : ∃ trace s, Chronicle minuteTerms {} { backing := .memory {} } trace s ∧
    Ordinary (movesOf trace) ∧ (idsDrawn trace).Nodup ∧ Identified trace s ∧
    s.threads[2]? = some ⟨idleDemand, .going (.log (.registered heir) (.done (.host heir)))⟩ ∧
    s.threads[3]? = some ⟨.refresh idleHost.id, .going (.done (.refused .notFound))⟩ ∧
    s.threads[4]? = some ⟨.findByCode idleHost.code, .going (.done (.host heir))⟩ := by
  obtain ⟨read, draw, next, hi, hread, hdraw, hstored⟩ := idleDemand_interaction
  have h4 := leads_idleBackingSystem.starts (.deleteByCode idleHost.code)
  have h5 := (h4.asks [_] [] rfl).starts idleDemand
  rw [hi] at h5
  have h6 := h5.reads [_, _] [] minuteStart
  rw [hread] at h6
  have h7 := h6.draws [_, _] [] ({} : Draws).draw.1 idleDraws.draw.2
  rw [hdraw] at h7
  have h8 := (h7.asks [_, _] [] heir_run).starts (.refresh idleHost.id)
  rw [hstored] at h8
  have h9 := h8.reads [_, _, _] [] minuteEnd
  have h10 := (h9.asks [_, _, _] [] rfl).starts (.findByCode idleHost.code)
  have h11 := h10.asks [_, _, _, _] [] rfl
  obtain ⟨trace, hrun, hmoves, hids⟩ := h11
  have ho : Ordinary (movesOf trace) := by
    rw [hmoves]
    refine ⟨fun request hmem => ?_, fun who now hmem => ?_⟩
    · simp [idleDemand] at hmem
    · have hnow : now = minuteStart ∨ now = minuteEnd := by
        simp at hmem
        tauto
      rcases hnow with rfl | rfl <;> decide
  have hnodup : (idsDrawn trace).Nodup := by
    have hdrawn : idsDrawn trace = [idleHost.id, heir.id] := by
      rw [hids, ← heir_id]
      rfl
    rw [hdrawn]
    decide
  refine ⟨trace, _, hrun, ho, hnodup, hrun.identified (.memory {}) ho hnodup, rfl, rfl, rfl⟩

end BackingSystem
end Rendezvous
