import Rendezvous.Proofs.Courses

/-!
# What a listing evicts

A listing decides on a snapshot, and its evictions reach the store later. `evicted_expired_iff`
says what an eviction then removes: the host of the snapshot as it was last renewed since. That it
is still expired is certain only when no renewal in between made it live again; `revivalMoves` is a
run in which one did.
-/

namespace Rendezvous

/-! ## Readings of the clock -/

/-- What a demand read, when the move is its reading of the clock. -/
def Move.reading? (who : Nat) : Move → Option Instant
  | .reads reader now => if reader = who then some now else none
  | _ => none

def readings (moves : List Move) (who : Nat) : List Instant := moves.filterMap (Move.reading? who)

theorem readings_append (moves : List Move) (move : Move) (who : Nat) :
    readings (moves ++ [move]) who = readings moves who ++ (move.reading? who).toList :=
  filterMap_concat _ moves move

theorem Move.reading?_eq_none {who : Nat} {move : Move} (h : move.who? ≠ some who) :
    move.reading? who = none := by
  cases move with
  | reads other now => exact if_neg fun he => h (congrArg some he)
  | _ => rfl

theorem readings_append_other {moves : List Move} {move : Move} {who : Nat}
    (hr : move.reading? who = none) : readings (moves ++ [move]) who = readings moves who := by
  rw [readings_append, hr]
  exact List.append_nil _

/-! ## The course of a listing -/

section

variable {terms : Terms} {guard : Guard} {feigned missed : Bool} {who : Nat} {moves : List Move}
  {c : Course}

/-- A listing reads the clock at most once. -/
theorem Course.Run.readings_eq
    (h : Run (Demand.May terms guard .listLive) feigned who moves missed c) :
    readings moves who = c.read.toList := by
  induction h with
  | nothing => rfl
  | other h hne ih => exact (readings_append_other (Move.reading?_eq_none hne)).trans ih
  | own h step ih =>
    cases step with
    | reads hmay now =>
      cases hmay.allows with
      | weigh ended unread =>
        rw [readings_append, ih, unread, Move.reading?, if_pos rfl]
        rfl
    | _ => exact (readings_append_other rfl).trans ih

/-- What a listing evicts is stale: it took a snapshot, and then read the clock. -/
theorem Stage.Keeps.stale {ends : Course → Reply → Prop} {slots : List (Host × Option Bool)}
    {next : List Bool → Interaction Reply}
    (h : (Stage.evicting slots next).Keeps (Demand.May terms guard .listLive) ends c)
    (hrun : Course.Run (Demand.May terms guard .listLive) feigned who moves missed c)
    {slot : Host × Option Bool} (hmem : slot ∈ slots) :
    ∃ before snapshot since now, moves = before ++ .asks who .list snapshot :: since ∧
      readings moves who = [now] ∧ Stale terms snapshot now slot.1 := by
  obtain ⟨⟨past, hmay, rfl⟩, -⟩ := h
  cases hmay.allows with
  | @evict _ snapshot now _ ended read stale =>
    have hstale := stale slot.1 (List.mem_map_of_mem hmem)
    have hreadings : readings moves who = past.read.toList := hrun.readings_eq
    rw [read] at hreadings
    rcases hrun.of_answered ended with ⟨-, hempty⟩ | ⟨before, since, hsplit⟩
    · cases hempty
      cases hstale.1
    · exact ⟨before, snapshot, since, now, hsplit, hreadings, hstale⟩

end

/-! ## What an eviction removes -/

/-- A listing that read the clock once removes a host of its snapshot, found expired then, as its
last renewal since the snapshot left it. So what it removes is expired exactly when no such renewal
made it live. -/
theorem evicted_expired_iff {terms : Terms} {guard : Guard} {past : List Move} {who : Nat}
    {s s' start : MemorySystem} {host h : Host} {thread : Thread}
    (hm : start.store.Consistent) (hstart : start.threads = [])
    (hrun : start.Run terms guard past s) (hw : s.threads[who]? = some thread)
    (hd : thread.demand = .listLive) (hs : s.Step terms guard (.evicts who host (some h)) s') :
    ∃ before snapshot since now, past = before ++ .asks who .list snapshot :: since ∧
      readings past who = [now] ∧ host ∈ snapshot ∧ terms.Expired host.updatedAt now ∧
      s.store.Holds h ∧ h.id = host.id ∧
      h.updatedAt = (lastRenewed since host.id).getD host.updatedAt ∧
      (terms.Expired h.updatedAt now ↔
        ∀ moment, lastRenewed since host.id = some moment → terms.Expired moment now) := by
  obtain ⟨trace, hplays, rfl⟩ := hrun.plays
  obtain ⟨c, hcourse, hkeeps⟩ := hplays.course hstart hw
  obtain ⟨demand, slots, next, i, hw', hslot, hran⟩ := Threads.Step.evicts_inv hs
  rw [hw] at hw'
  cases hw'
  obtain rfl : demand = .listLive := hd
  obtain ⟨before, snapshot, since, now, hsplit, hread, hmem, hexp⟩ :=
    hkeeps.stale hcourse (List.mem_of_getElem? hslot)
  have htracks : Tracks snapshot since s.store :=
    hplays.since tracks_list (fun hm ht hmoved => ht.moved hm hmoved) hm hsplit
  have hanswer : (s.store.deleteById host.id).1 = some h := Outcome.answered.inj hran
  rcases s.store.deleteById_cases (hplays.consistent hm) host.id with ⟨he, _⟩ | ⟨g, he, hh, hid⟩
  · rw [he] at hanswer
    cases hanswer
  · rw [he] at hanswer
    cases hanswer
    have hu := htracks host hmem h hh hid
    refine ⟨before, snapshot, since, now, hsplit, hread, hmem, hexp, hh, hid, hu, ?_⟩
    rw [hu]
    cases lastRenewed since host.id with
    | none => simpa using hexp
    | some moment => simp

/-- What a listing evicts is always expired when it goes. -/
def EvictsOnlyExpired (terms : Terms) (guard : Guard) : Prop :=
  ∀ (start s s' : MemorySystem) (past : List Move) (who : Nat) (thread : Thread) (host h : Host)
    (now : Instant), start.store.Consistent → start.threads = [] →
    start.Run terms guard past s → s.threads[who]? = some thread → thread.demand = .listLive →
    readings past who = [now] → s.Step terms guard (.evicts who host (some h)) s' →
    terms.Expired h.updatedAt now

/-! ### A host that is evicted although it was refreshed -/

def minuteTerms : Terms := { lifetimeSeconds := 60 }

def minuteStart : Instant := (Instant.of? 1700000000 0).getD .epoch

def minuteEnd : Instant := (Instant.of? 1700000060 0).getD .epoch

def idleHost : Host :=
  ⟨"00000000000040008000000000000002", "10.0.0.1", ⟨7777, by decide⟩, "89A5DC", minuteStart,
    minuteStart⟩

def revivedHost : Host := { idleHost with updatedAt := minuteEnd }

def idleSystem : MemorySystem := { store := Memory.add {} idleHost }

theorem idleSystem_consistent : idleSystem.store.Consistent :=
  Memory.consistent_empty.add (fun h hh => (Memory.not_holds_empty h hh).elim)
    fun h hh => (Memory.not_holds_empty h hh).elim

/-- A listing decides to evict the host, and before it does a refresh is answered. -/
def revivalMoves : List Move :=
  [.starts .listLive, .asks 0 .list [idleHost], .reads 0 minuteEnd, .sweeps 0 [idleHost],
    .starts (.refresh idleHost.id), .reads 1 minuteEnd,
    .asks 1 (.touch idleHost.id minuteEnd) (some revivedHost)]

theorem revival_run : ∃ s s' : MemorySystem, idleSystem.Run minuteTerms {} revivalMoves s ∧
    (∃ thread, s.threads[0]? = some thread ∧ thread.demand = .listLive) ∧
    s.Step minuteTerms {} (.evicts 0 idleHost (some revivedHost)) s' := by
  have hlist : idleSystem.store.list = [idleHost] := List.mergeSort_singleton idleHost
  have h0 : idleSystem.Run minuteTerms {} [] idleSystem := .nil
  have h1 := h0.snoc (.starts idleSystem .listLive)
  have h2 := h1.snoc (.asks 0 rfl)
  simp only [Memory.run, hlist] at h2
  have h3 := h2.snoc (.goes 0 rfl (.reads _ minuteEnd))
  have h4 := h3.snoc (.goes 0 rfl (.sweeps _ _ _))
  have h5 := h4.snoc (.starts _ (.refresh idleHost.id))
  have h6 := h5.snoc (.goes 1 rfl (.reads _ minuteEnd))
  have h7 := h6.snoc (.asks 1 rfl)
  exact ⟨_, _, h7, ⟨_, rfl, rfl⟩, MemorySystem.Steps.goes 0 rfl (.evicts _ 0 false rfl rfl)⟩

theorem evicted_expired_iff_revival : ∃ s s' : MemorySystem,
    idleSystem.Run minuteTerms {} revivalMoves s ∧
    s.Step minuteTerms {} (.evicts 0 idleHost (some revivedHost)) s' ∧
    ∃ before snapshot since now, revivalMoves = before ++ .asks 0 .list snapshot :: since ∧
      readings revivalMoves 0 = [now] ∧ idleHost ∈ snapshot ∧
      minuteTerms.Expired idleHost.updatedAt now ∧ s.store.Holds revivedHost ∧
      revivedHost.id = idleHost.id ∧
      revivedHost.updatedAt = (lastRenewed since idleHost.id).getD idleHost.updatedAt ∧
      (minuteTerms.Expired revivedHost.updatedAt now ↔
        ∀ moment, lastRenewed since idleHost.id = some moment →
          minuteTerms.Expired moment now) := by
  obtain ⟨s, s', hrun, ⟨thread, hw, hd⟩, hs⟩ := revival_run
  exact ⟨s, s', hrun, hs, evicted_expired_iff idleSystem_consistent rfl hrun hw hd hs⟩

/-- The refreshed host is evicted although it is live. -/
theorem not_evictsOnlyExpired : ¬ EvictsOnlyExpired minuteTerms {} := by
  intro h
  obtain ⟨s, s', hrun, ⟨thread, hw, hd⟩, hs⟩ := revival_run
  have hexp := h _ _ _ _ _ _ _ _ minuteEnd idleSystem_consistent rfl hrun hw hd rfl hs
  revert hexp
  decide

end Rendezvous
