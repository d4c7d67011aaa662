import Rendezvous.Proofs.Identity

/-!
# Refreshes that overtake each other

A refresh reads the clock and then reaches the store. Another one may reach it in between, having
read the clock later; then the first one sets the host back to the earlier reading.
`BackingSystem.Chronicle.setBack_iff` says that this is the only way for the life of a host to go
backwards when the clock does not: the host shows an earlier moment than the one a refresh was
answered with exactly if it was last renewed by a demand that had read the clock before that refresh
did. `setBackMoves` is a run in which one did.
-/

namespace Rendezvous

/-! ## Readings of the clock -/

def Move.moment? : Move → Option Instant
  | .reads _ now => some now
  | _ => none

/-- The clock never goes back. -/
def ReadInOrder (moves : List Move) : Prop :=
  (moves.filterMap Move.moment?).Pairwise fun a b => a.le b = true

theorem ReadInOrder.le {moves : List Move} (h : ReadInOrder moves) {who other : Nat}
    {a b : Instant} (hs : [Move.reads who a, .reads other b].Sublist moves) : a.le b = true := by
  have hpair : [a, b].Pairwise fun a b => a.le b = true :=
    List.Pairwise.sublist (hs.filterMap Move.moment?) h
  exact List.rel_of_pairwise_cons hpair List.mem_cons_self

/-- Of two different moves one comes before the other. -/
theorem sublist_or_sublist {α : Type} {x y : α} {l : List α} (hx : x ∈ l) (hy : y ∈ l)
    (hne : x ≠ y) : [x, y].Sublist l ∨ [y, x].Sublist l := by
  induction l with
  | nil => cases hx
  | cons z l ih =>
    rcases List.mem_cons.mp hx with rfl | hxl
    · have hyl := (List.mem_cons.mp hy).resolve_left (Ne.symm hne)
      exact .inl ((List.singleton_sublist.mpr hyl).cons_cons x)
    · rcases List.mem_cons.mp hy with rfl | hyl
      · exact .inr ((List.singleton_sublist.mpr hxl).cons_cons y)
      · exact (ih hxl hyl).imp (.cons z) (.cons z)

/-! ## Renewals, told by what steps make of the hosts -/

def Change.renewal? (id : String) : Change → Option Instant
  | .added h | .renewed h => if h.id = id then some h.updatedAt else none
  | .removed _ | .merged _ => none

/-- A host that is stored afterwards has just been renewed, or it was stored so before. -/
theorem Change.Makes.renewal? {held held' : Host → Prop} {change? : Option Change}
    (h : Change.Makes held held' change?) {host : Host} (hh : held' host) :
    change?.bind (Change.renewal? host.id) = some host.updatedAt ∨
      change?.bind (Change.renewal? host.id) = none ∧ held host := by
  cases h with
  | still same => exact .inr ⟨rfl, (same host).mp hh⟩
  | merged document same => exact .inr ⟨rfl, (same host).mp hh⟩
  | removed before after => exact .inr ⟨rfl, ((after host).mp hh).1⟩
  | added newId freeCode after =>
    rcases (after host).mp hh with rfl | hold
    · exact .inl (if_pos rfl)
    · exact .inr ⟨if_neg (newId host hold).symm, hold⟩
  | renewed before moment after =>
    rcases (after host).mp hh with rfl | ⟨hold, hid⟩
    · exact .inl (if_pos rfl)
    · exact .inr ⟨if_neg hid.symm, hold⟩

theorem lastRenewed_movesOf_append (trace : List Transition) (t : Transition) (id : String) :
    lastRenewed (movesOf (trace ++ [t])) id
      = (t.move?.bind (Move.renewal? id)).or (lastRenewed (movesOf trace) id) := by
  rw [movesOf_append]
  cases t.move? with
  | none => simp
  | some move => exact lastRenewed_append (movesOf trace) move id

/-- Who renewed a host last was one of the moves. -/
theorem exists_of_lastRenewed {trace : List Transition} {id : String} {moment : Instant}
    (h : lastRenewed (movesOf trace) id = some moment) :
    ∃ past t later, trace = past ++ t :: later ∧
      t.move?.bind (Move.renewal? id) = some moment := by
  obtain ⟨move, hmem, hrenewal⟩ := List.mem_filterMap.mp (List.mem_of_getLast? h)
  obtain ⟨t, ht, hmove⟩ := List.mem_filterMap.mp hmem
  obtain ⟨past, later, htrace⟩ := List.append_of_mem ht
  exact ⟨past, t, later, htrace, Option.bind_eq_some_iff.mpr ⟨move, hmove, hrenewal⟩⟩

namespace BackingSystem.Runs

variable {terms : Terms} {guard : Guard} {feigned : Bool} {start s : BackingSystem}
  {trace past since : List Transition} {t : Transition}

section

variable (h : start.Runs terms guard feigned trace s) (hs : start.threads = [])
  (hb : start.backing.Sound) (ho : Ordinary (movesOf trace)) (htrace : trace = past ++ t :: since)

include h hs hb ho htrace

/-- The moment that a move gives to a host is that of its change. -/
theorem renewal?_eq (id : String) : t.move?.bind (Move.renewal? id)
    = (t.move?.bind Move.change?).bind (Change.renewal? id) := by
  cases hmove : t.move? with
  | none => rfl
  | some move =>
    cases move with
    | asks who command answer =>
      obtain ⟨hfits, demand, c, rest, hcalled⟩ := h.called hs hb ho htrace hmove
      cases hcalled.asks with
      | insert a candidate =>
        cases answer with
        | none => rfl
        | some host =>
          obtain ⟨_, rfl⟩ := hfits host rfl
          rfl
      | touch id' moment =>
        cases answer with
        | none => rfl
        | some host =>
          obtain ⟨old, -, -, rfl⟩ := (hfits host).mp rfl
          rfl
      | deleteById | deleteByCode => cases answer <;> rfl
      | _ => rfl
    | evicts who host answer => cases answer <;> rfl
    | _ => rfl

/-- Whoever gives a moment to a host has read it from the clock before. -/
theorem renewal_read {id : String} {moment : Instant}
    (hr : t.move?.bind (Move.renewal? id) = some moment) :
    ∃ who, .reads who moment ∈ movesOf past := by
  obtain ⟨move, hmove, hrenewal⟩ := Option.bind_eq_some_iff.mp hr
  cases move with
  | asks who command answer =>
    obtain ⟨-, demand, c, rest, hcalled⟩ := h.called hs hb ho htrace hmove
    refine ⟨who, hcalled.read moment ?_⟩
    have hstems := hcalled.stems
    cases hcalled.asks with
    | insert a candidate =>
      cases answer with
      | none => cases hrenewal
      | some host =>
        simp only [Move.renewal?] at hrenewal
        split at hrenewal
        · cases hrenewal
          generalize c.read = read, c.drawn = drawn at hstems
          cases hstems with
          | intro => rfl
        · cases hrenewal
    | touch id' moment =>
      cases answer with
      | none => cases hrenewal
      | some host =>
        simp only [Move.renewal?] at hrenewal
        split at hrenewal
        · exact hstems.trans hrenewal
        · cases hrenewal
    | _ => cases hrenewal
  | _ => cases hrenewal

end

/-- A host that is stored when a refresh has been answered and later on shows the moment that it was
given last. -/
theorem updatedAt_eq (h : start.Runs terms guard feigned trace s) (hs : start.threads = [])
    (hb : start.backing.Sound) (ho : Ordinary (movesOf trace)) (htrace : trace = past ++ t :: since)
    {id : String} {moment : Instant} (hr : t.move?.bind (Move.renewal? id) = some moment)
    {later : Host} (hlater : s.backing.Holds later) (hid : later.id = id) :
    later.updatedAt = (lastRenewed (movesOf since) id).getD moment := by
  subst hid
  induction h generalizing since with
  | nil => cases past <;> cases htrace
  | @snoc trace move? late s s' run step ih =>
    have hend : trace ++ [⟨s, move?, late, s'⟩] = trace ++ ⟨s, move?, late, s'⟩ :: [] := rfl
    have hmakes := (run.snoc step).makes hs hb ho hend
    have hlast := (run.snoc step).renewal?_eq hs hb ho hend later.id
    rcases List.eq_nil_or_concat since with rfl | ⟨since, last, rfl⟩
    · obtain ⟨rfl, ht⟩ := List.append_inj' htrace rfl
      cases ht
      rw [hlast] at hr
      rcases hmakes.renewal? hlater with hrenewed | ⟨hnone, -⟩
      · exact Option.some.inj (hrenewed.symm.trans hr)
      · rw [hnone] at hr
        cases hr
    · rw [List.concat_eq_append, ← List.cons_append, ← List.append_assoc] at htrace
      obtain ⟨rfl, ht⟩ := List.append_inj' htrace rfl
      cases ht
      rw [List.concat_eq_append, lastRenewed_movesOf_append, hlast]
      rcases hmakes.renewal? hlater with hrenewed | ⟨hnone, hold⟩
      · rw [hrenewed]
        rfl
      · rw [hnone, Option.none_or]
        rw [movesOf_append] at ho
        exact ih ho.of_append rfl hold

end BackingSystem.Runs

namespace BackingSystem.Chronicle

variable {terms : Terms} {guard : Guard} {start s : BackingSystem}
  {trace past since : List Transition} {t : Transition}

/-- A refresh was answered with a moment. Its host shows an earlier one later on exactly if it was
last renewed by a demand that had read the clock before the refresh did. -/
theorem setBack_iff (h : start.Chronicle terms guard trace s) (hs : start.threads = [])
    (hb : start.backing.Sound) (ho : Ordinary (movesOf trace)) (hread : ReadInOrder (movesOf trace))
    (htrace : trace = past ++ t :: since) {who : Nat} {id : String} {moment : Instant} {host : Host}
    (hm : t.move? = some (.asks who (.touch id moment) (some host))) {later : Host}
    (hlater : s.backing.Holds later) (hid : later.id = id) :
    later.updatedAt = (lastRenewed (movesOf since) id).getD moment ∧
      (moment.le later.updatedAt = false ↔ ∃ other earlier,
        lastRenewed (movesOf since) id = some earlier ∧ moment.le earlier = false ∧
          [Move.reads other earlier, .reads who moment].Sublist (movesOf trace)) := by
  obtain ⟨hfits, demand, c, rest, hcalled⟩ := h.called hs hb ho htrace hm
  have hhost : host.id = id := by
    obtain ⟨old, -, hold, rfl⟩ := (hfits host).mp rfl
    exact hold
  have hr : t.move?.bind (Move.renewal? id) = some moment := by
    rw [hm]
    exact if_pos hhost
  have hown : .reads who moment ∈ movesOf trace := by
    rw [htrace, movesOf, List.filterMap_append]
    exact List.mem_append_left _ (hcalled.read moment hcalled.stems)
  have hupdated := h.updatedAt_eq hs hb ho htrace hr hlater hid
  refine ⟨hupdated, ?_⟩
  rw [hupdated]
  constructor
  · intro hback
    cases hrenewed : lastRenewed (movesOf since) id with
    | none =>
      rw [hrenewed, Option.getD_none, Instant.le_refl] at hback
      cases hback
    | some earlier =>
      rw [hrenewed, Option.getD_some] at hback
      obtain ⟨first, u, rest, hsince, hu⟩ := exists_of_lastRenewed hrenewed
      have hsplit : trace = (past ++ t :: first) ++ u :: rest := by simp [htrace, hsince]
      obtain ⟨other, hother⟩ := h.renewal_read hs hb ho hsplit hu
      have hmem : .reads other earlier ∈ movesOf trace := by
        rw [hsplit, movesOf, List.filterMap_append]
        exact List.mem_append_left _ hother
      have hne : Move.reads other earlier ≠ .reads who moment := by
        rintro ⟨⟩
        rw [Instant.le_refl] at hback
        cases hback
      refine ⟨other, earlier, rfl, hback, (sublist_or_sublist hmem hown hne).resolve_right ?_⟩
      intro hafter
      rw [hread.le hafter] at hback
      cases hback
  · rintro ⟨other, earlier, hrenewed, hback, -⟩
    rw [hrenewed]
    exact hback

end BackingSystem.Chronicle

/-! ### A refresh that is overtaken -/

/-- The life of a host never goes backwards: neither in a step, nor behind the moment that a refresh
was answered with. -/
structure NeverSetBack (trace : List Transition) : Prop where
  stored : ∀ t ∈ trace, ∀ h later, t.before.backing.Holds h → t.after.backing.Holds later →
    later.id = h.id → h.updatedAt.le later.updatedAt = true
  answered : trace.Pairwise fun t u => ∀ who id moment host later,
    t.move? = some (.asks who (.touch id moment) (some host)) → u.after.backing.Holds later →
      later.id = id → moment.le later.updatedAt = true

def setBackMoves : List Move :=
  [.starts idleDemand, .reads 0 minuteStart, .draws 0,
    .asks 0 (.insert idleCandidate) (some idleHost), .starts (.refresh idleHost.id),
    .reads 1 minuteStart, .starts (.refresh idleHost.id), .reads 2 minuteEnd]

namespace BackingSystem

/-- The second of them reaches the store first. -/
theorem setBack_run : ∃ trace s₁ s₂ s₃,
    Chronicle minuteTerms {} { backing := .memory {} } trace s₁ ∧
    s₁.Moves minuteTerms {} true
      (some (.asks 2 (.touch idleHost.id minuteEnd) (some revivedHost))) false s₂ ∧
    s₂.Moves minuteTerms {} true
      (some (.asks 1 (.touch idleHost.id minuteStart) (some idleHost))) false s₃ ∧
    movesOf trace = setBackMoves ∧ idsDrawn trace = [idleHost.id] ∧
    s₂.backing.Holds revivedHost ∧ s₃.backing.Holds idleHost := by
  have h1 := leads_idleBackingSystem.starts (.refresh idleHost.id)
  have h2 := h1.reads [_] [] minuteStart
  have h3 := h2.starts (.refresh idleHost.id)
  have h4 := h3.reads [_, _] [] minuteEnd
  obtain ⟨trace, hrun, hmoves, hids⟩ := h4
  exact ⟨trace, _, _, _, hrun, .goes 2 rfl (.asks _ _ false rfl),
    .goes 1 rfl (.asks _ _ false rfl), hmoves, hids, rfl, rfl⟩

/-- The chronicle of both refreshes, split where the second one reaches the store. -/
theorem setBack_chronicle : ∃ past t u s,
    Chronicle minuteTerms {} { backing := .memory {} } (past ++ t :: [u]) s ∧
    Ordinary (movesOf (past ++ t :: [u])) ∧ ReadInOrder (movesOf (past ++ t :: [u])) ∧
    (idsDrawn (past ++ t :: [u])).Nodup ∧
    t.move? = some (.asks 2 (.touch idleHost.id minuteEnd) (some revivedHost)) ∧
    u.move? = some (.asks 1 (.touch idleHost.id minuteStart) (some idleHost)) ∧
    u.before.backing.Holds revivedHost ∧ u.after.backing.Holds idleHost ∧
    s.backing.Holds idleHost := by
  obtain ⟨past, s₁, s₂, s₃, hrun, ht, hu, hmoves, hids, hbefore, hafter⟩ := setBack_run
  have hchronicle := (hrun.snoc ht).snoc hu
  rw [List.append_assoc] at hchronicle
  have hall : ∀ t u, movesOf (past ++ t :: [u])
      = setBackMoves ++ (t.move?.toList ++ u.move?.toList) := by
    intro t u
    rw [← hmoves, ← List.append_assoc, ← movesOf_append, ← movesOf_append, List.append_assoc]
    rfl
  have hdrawn : ∀ t u, idsDrawn (past ++ t :: [u]) = [idleHost.id] ++ (t.ids ++ u.ids) := by
    intro t u
    rw [← hids, ← List.append_assoc, ← idsDrawn_append, ← idsDrawn_append, List.append_assoc]
    rfl
  refine ⟨past, _, _, s₃, hchronicle, ?_, ?_, ?_, rfl, rfl, hbefore, hafter, hafter⟩
  · rw [hall]
    refine ⟨fun request hmem => ?_, fun who now hmem => ?_⟩
    · simp [setBackMoves, idleDemand] at hmem
    · have hnow : now = minuteStart ∨ now = minuteEnd := by
        simp [setBackMoves] at hmem
        tauto
      rcases hnow with rfl | rfl <;> decide
  · rw [hall]
    show [minuteStart, minuteStart, minuteEnd].Pairwise fun a b => a.le b = true
    decide
  · rw [hdrawn]
    exact List.nodup_singleton _

theorem setBack_iff_overtaken : ∃ past t u s,
    Chronicle minuteTerms {} { backing := .memory {} } (past ++ t :: [u]) s ∧
    t.move? = some (.asks 2 (.touch idleHost.id minuteEnd) (some revivedHost)) ∧
    s.backing.Holds idleHost ∧
    idleHost.updatedAt = (lastRenewed (movesOf [u]) idleHost.id).getD minuteEnd ∧
    (minuteEnd.le idleHost.updatedAt = false ↔ ∃ other earlier,
      lastRenewed (movesOf [u]) idleHost.id = some earlier ∧ minuteEnd.le earlier = false ∧
        [Move.reads other earlier, .reads 2 minuteEnd].Sublist (movesOf (past ++ t :: [u]))) := by
  obtain ⟨past, t, u, s, hrun, ho, hread, -, ht, -, -, -, hheld⟩ := setBack_chronicle
  exact ⟨past, t, u, s, hrun, ht, hheld, hrun.setBack_iff rfl Backing.sound_memory ho hread rfl ht
    hheld rfl⟩

/-- The host shows the earlier reading, after a refresh was answered with the later one. -/
theorem not_neverSetBack : ¬ ∀ (start s : BackingSystem) (trace : List Transition), start.IsNew →
    start.Chronicle minuteTerms {} trace s → Ordinary (movesOf trace) → (idsDrawn trace).Nodup →
    ReadInOrder (movesOf trace) → NeverSetBack trace := by
  intro hnever
  obtain ⟨past, t, u, s, hrun, ho, hread, hids, -, -, hbefore, hafter, -⟩ := setBack_chronicle
  have hle := (hnever _ s _ (.memory {}) hrun ho hids hread).stored u (by simp) revivedHost idleHost
    hbefore hafter rfl
  revert hle
  decide

end BackingSystem
end Rendezvous
