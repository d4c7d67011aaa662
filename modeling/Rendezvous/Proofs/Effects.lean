import Rendezvous.Proofs.Sweeping

/-!
# What an ended demand has changed

Whatever disturbs a demand and whatever runs beside it, its reply tells of all that it changed
itself: `MemorySystem.Plays.honest`. A refused demand changed nothing. Of a listing the reply says
nothing, but it removed only hosts that were expired in its own snapshot.
-/

namespace Rendezvous

/-- The moves of the demand all leave the store as they find it. -/
def Idle (who : Nat) (trace : List MemoryTransition) : Prop :=
  ∀ b ∈ trace, b.move.who? = some who → b.after.store = b.before.store

/-- One move of the demand makes the change, and its other moves leave the store as they find it;
without a change all of them do. -/
def Makes (who : Nat) (trace : List MemoryTransition) : Option Change → Prop
  | none => Idle who trace
  | some change => ∃ past b later, trace = past ++ b :: later ∧ b.move.who? = some who ∧
    b.before.store.Takes (some change) b.after.store ∧ Idle who past ∧ Idle who later

/-- The demand had asked for all stored hosts, and by the time that it read then a host with this id
was expired among them. This is that host, refreshed at most, unless its id was given away anew in
between. -/
def ExpiredInSnapshot (terms : Terms) (who : Nat) (past : List MemoryTransition)
    (host : Host) : Prop :=
  ∃ before b since now found, past = before ++ b :: since ∧
    b.move = .asks who .list b.before.store.list ∧ readings (past.map (·.move)) who = [now] ∧
    found ∈ b.before.store.list ∧ terms.Expired found.updatedAt now ∧ found.id = host.id ∧
    (host = { found with updatedAt := host.updatedAt } ∨ Readded (since.map (·.move)) host.id)

/-- Each move of the demand leaves the store as it is, or removes a host that was expired in the
demand's own snapshot. -/
def SweepsOnlyExpired (terms : Terms) (who : Nat) (trace : List MemoryTransition) : Prop :=
  ∀ past b later, trace = past ++ b :: later → b.move.who? = some who →
    b.after.store = b.before.store ∨
      ∃ host, b.before.store.Takes (some (.removed host)) b.after.store ∧
        ExpiredInSnapshot terms who past host

section

variable {who : Nat} {trace : List MemoryTransition}
  (ht : ∀ b ∈ trace, b.before.store.Takes b.move.change? b.after.store)

include ht

theorem idle_of_own? (h : ∀ b ∈ trace, b.move.own? Move.change? who = none) : Idle who trace := by
  intro b hb hown
  have htakes := ht b hb
  have hnone := h b hb
  rw [Move.own?, if_pos hown] at hnone
  rw [hnone] at htakes
  exact htakes.eq

theorem makes_of_changesBy {made : Option Change}
    (h : changesBy who (trace.map (·.move)) = made.toList) : Makes who trace made := by
  rw [changesBy, doneBy, List.filterMap_map] at h
  cases made with
  | none => exact idle_of_own? ht (List.filterMap_eq_nil_iff.mp h)
  | some change =>
    obtain ⟨past, b, later, rfl, hpast, hb, hlater⟩ := List.filterMap_eq_cons_iff.mp h
    have hsplit : Move.own? Move.change? who b.move = some change := hb
    rw [Move.own?] at hsplit
    split at hsplit
    · next hown =>
      refine ⟨past, b, later, rfl, hown, ?_, ?_, ?_⟩
      · rw [← hsplit]
        exact ht b (by simp)
      · exact idle_of_own? (fun c hc => ht c (List.mem_append_left _ hc)) hpast
      · exact idle_of_own? (fun c hc => ht c (by simp [hc]))
          (List.filterMap_eq_nil_iff.mp hlater)
    · cases hsplit

end

theorem Swept.expiredInSnapshot {terms : Terms} {who : Nat} {past : List MemoryTransition}
    {host : Host} (h : Swept terms (past.map (·.move)) who host)
    (hmoved : ∀ b ∈ past, b.before.store.Moved b.move b.after.store) :
    ExpiredInSnapshot terms who past host := by
  obtain ⟨before, snapshot, since, now, found, hsplit, hread, hmem, hexp, hid, hkin⟩ := h
  obtain ⟨before, rest, rfl, rfl, hrest⟩ := List.map_eq_append_iff.mp hsplit
  obtain ⟨b, since, rfl, hb, rfl⟩ := List.map_eq_cons_iff.mp hrest
  have hsnapshot : snapshot = b.before.store.list := by
    have hm := hmoved b (by simp)
    rw [hb] at hm
    exact hm.list.1
  subst hsnapshot
  exact ⟨before, b, since, now, found, rfl, hb, hread, hmem, hexp, hid, hkin⟩

theorem Sweeps.onlyExpired {terms : Terms} {who : Nat} {trace : List MemoryTransition}
    (h : Sweeps terms (trace.map (·.move)) who)
    (hmoved : ∀ b ∈ trace, b.before.store.Moved b.move b.after.store)
    (ht : ∀ b ∈ trace, b.before.store.Takes b.move.change? b.after.store) :
    SweepsOnlyExpired terms who trace := by
  rintro past b later rfl hown
  have htakes := ht b (by simp)
  cases hc : b.move.change? with
  | none =>
    rw [hc] at htakes
    exact .inl htakes.eq
  | some change =>
    obtain ⟨host, rfl, hswept⟩ := h (past.map (·.move)) b.move
      (later.map (·.move)) (by simp) hown change hc
    rw [hc] at htakes
    exact .inr ⟨host, htakes,
      hswept.expiredInSnapshot fun c hc => hmoved c (List.mem_append_left _ hc)⟩

/-- For every stored state and every run from it, with any delays, failures, feigned answers and
passed deadlines and with any other demands beside it: what a demand that ended has changed itself
is what its reply tells of, and a listing at no time removes anything but what was expired in its
own snapshot. -/
theorem MemorySystem.Plays.honest {terms : Terms} {guard : Guard} {start s : MemorySystem}
    {trace : List MemoryTransition}
    {who : Nat} {thread : Thread} (h : start.Plays terms guard trace s)
    (hm : start.store.Consistent) (hs : start.threads = []) (hw : s.threads[who]? = some thread)
    (hh : ∀ request, thread.demand ≠ .http request) :
    (thread.demand = .listLive → SweepsOnlyExpired terms who trace) ∧
      ∀ reply, thread.stage = .going (.done reply) →
        (thread.demand = .listLive ∧ ∃ hosts, reply = .hosts hosts) ∨
          ∃ made, Told thread.demand reply made ∧ Makes who trace made := by
  have ht := h.takes hm
  constructor
  · intro hl
    refine (h.sweeps hm hs hw hl).onlyExpired (fun b hb => ?_) ht
    obtain ⟨_, _, hmoved⟩ := h.transition b hb
    exact hmoved
  · intro reply hreply
    obtain ⟨c, hrun, hkeeps⟩ := h.course hs hw
    rw [hreply] at hkeeps
    have htells := hkeeps.2.tells
    by_cases hl : thread.demand = .listLive
    · rw [hl] at hrun htells ⊢
      have hidle (h : ∀ snapshot, c.ended ≠ some ⟨.list, .answered snapshot⟩) :
          Makes who trace none :=
        makes_of_changesBy ht (hrun.unswept.resolve_right fun ⟨snapshot, he⟩ => h snapshot he).2
      cases htells with
      | refused hu refusal =>
        refine .inr ⟨none, .refused _ refusal, hidle fun snapshot he => ?_⟩
        obtain ⟨_, ⟨⟩⟩ := hu.insert_of_ended he
      | unavailable ended miss late =>
        refine .inr ⟨none, .refused _ _, hidle fun snapshot he => ?_⟩
        cases he.symm.trans ended
        exact miss
      | answered asks ended decides =>
        cases asks
        cases decides
      | @listed _ _ live ended sub => exact .inl ⟨rfl, live, rfl⟩
    · have htold := htells.told hl hh
      exact .inr ⟨_, htold, makes_of_changesBy ht (hrun.changes hl hh)⟩

/-- Before a listing evicts the host of `idleSystem`, a refresh is answered with it and a demand to
delete it is told that there is none. -/
theorem revival_plays : ∃ trace s, idleSystem.Plays minuteTerms {} trace s ∧
    s.threads[0]? = some ⟨.listLive, .going (.done (.hosts []))⟩ ∧
    s.threads[1]? = some ⟨.refresh idleHost.id, .going (.done (.host revivedHost))⟩ ∧
    s.threads[2]? = some ⟨.deleteById idleHost.id, .going (.done (.refused .notFound))⟩ ∧
    s.store.hosts = [] := by
  have hlist : idleSystem.store.list = [idleHost] := List.mergeSort_singleton idleHost
  have h0 : idleSystem.Plays minuteTerms {} [] idleSystem := .nil
  have h1 := h0.snoc (.starts idleSystem .listLive)
  have h2 := h1.snoc (.asks 0 rfl)
  simp only [Memory.run, hlist] at h2
  have h3 := h2.snoc (.goes 0 rfl (.reads _ minuteEnd))
  have h4 := h3.snoc (.goes 0 rfl (.sweeps _ _ _))
  have h5 := h4.snoc (.starts _ (.refresh idleHost.id))
  have h6 := h5.snoc (.goes 1 rfl (.reads _ minuteEnd))
  have h7 := h6.snoc (.asks 1 rfl)
  have h8 := h7.snoc (.starts _ (.deleteById idleHost.id))
  have h9 := h8.snoc (.goes 2 rfl (.misses _ _ (.feigned rfl rfl)))
  have h10 := h9.snoc (.goes 0 rfl (.evicts _ 0 false rfl rfl))
  have h11 := h10.snoc (.goes 0 rfl (.returns _ (by decide)))
  have h12 := h11.snoc (.goes 0 rfl (.notes _ _))
  exact ⟨_, _, h12, rfl, rfl, rfl, rfl⟩

theorem honest_revival : ∃ trace s, idleSystem.Plays minuteTerms {} trace s ∧
    idleSystem.store.Consistent ∧ idleSystem.threads = [] ∧
    s.threads[0]? = some ⟨.listLive, .going (.done (.hosts []))⟩ ∧
    SweepsOnlyExpired minuteTerms 0 trace ∧
    s.threads[1]? = some ⟨.refresh idleHost.id, .going (.done (.host revivedHost))⟩ ∧
    Makes 1 trace (some (.renewed revivedHost)) ∧
    s.threads[2]? = some ⟨.deleteById idleHost.id, .going (.done (.refused .notFound))⟩ ∧
    Idle 2 trace := by
  obtain ⟨trace, s, h, hlisting, hrefresh, hdelete, _⟩ := revival_plays
  refine ⟨trace, s, h, idleSystem_consistent, rfl, hlisting, ?_, hrefresh, ?_, hdelete, ?_⟩
  · exact (h.honest idleSystem_consistent rfl hlisting fun _ he => by cases he).1 rfl
  · have hended := (h.honest idleSystem_consistent rfl hrefresh fun _ he => by cases he).2 _ rfl
    obtain ⟨hl, _⟩ | ⟨made, htold, hmakes⟩ := hended
    · cases hl
    · cases htold
      exact hmakes
  · have hended := (h.honest idleSystem_consistent rfl hdelete fun _ he => by cases he).2 _ rfl
    obtain ⟨hl, _⟩ | ⟨made, htold, hmakes⟩ := hended
    · cases hl
    · cases htold
      exact hmakes

end Rendezvous
