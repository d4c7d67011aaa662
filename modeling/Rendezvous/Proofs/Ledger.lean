import Rendezvous.Proofs.Changes
import Rendezvous.Proofs.History

/-!
# Entries and exits

`entries` and `exits` list the hosts that the moves of a run brought into the store and took out of
it, each with the demand that did. When no id is drawn twice, each host that entered is stored or
has left, never both and never twice, and nothing else is stored or leaves: `Ledger`.
-/

namespace Rendezvous

/-! ## How many hosts are stored -/

namespace Memory

variable {m : Memory} (hm : m.Consistent)

include hm

theorem length_add {host : Host} (hid : ∀ h, m.Holds h → h.id ≠ host.id) :
    (m.add host).hosts.length = m.hosts.length + 1 :=
  congrArg (· + 1) (Index.length_erase_of_get?_none ((findById_eq_none_iff hm).mpr hid))

theorem length_remove {host : Host} (hh : m.Holds host) :
    (m.remove host).hosts.length + 1 = m.hosts.length :=
  Index.length_erase_of_get?_some hm.nodup hh

theorem length_renew {host : Host} (hh : m.Holds host) (moment : Instant) :
    (m.renew { host with updatedAt := moment }).hosts.length = m.hosts.length :=
  Index.length_erase_of_get?_some hm.nodup hh

end Memory

/-! ## One host through its refreshes -/

/-- The second host is the first one, refreshed at most. -/
def Host.Kept (host later : Host) : Prop := later = { host with updatedAt := later.updatedAt }

namespace Host.Kept

variable {a b c : Host}

theorem refl (host : Host) : host.Kept host := rfl

theorem id_eq (h : a.Kept b) : b.id = a.id := by
  rw [h]

theorem trans (hab : a.Kept b) (hbc : b.Kept c) : a.Kept c := by
  unfold Kept at *
  rw [hbc, hab]

theorem refresh (h : a.Kept b) (moment : Instant) : a.Kept { b with updatedAt := moment } := by
  unfold Kept at h ⊢
  rw [h]

end Host.Kept

/-! ## Ledgers -/

theorem nodup_ids_append {hosts : List (Nat × Host)} (h : (hosts.map (·.2.id)).Nodup) (who : Nat)
    {host : Host} (hnew : ∀ e ∈ hosts, e.2.id ≠ host.id) :
    ((hosts ++ [(who, host)]).map (·.2.id)).Nodup := by
  rw [List.map_append, List.nodup_append]
  refine ⟨h, List.pairwise_singleton _ _, ?_⟩
  intro id hid other hother
  obtain ⟨e, he, rfl⟩ := List.mem_map.mp hid
  obtain rfl := List.mem_singleton.mp hother
  exact hnew e he

/-- The books of a store: which hosts entered it and which left it, each with the demand that did
it. -/
structure Ledger (entered gone : List (Nat × Host)) (m : Memory) : Prop where
  entered_once : (entered.map (·.2.id)).Nodup
  gone_once : (gone.map (·.2.id)).Nodup
  stored_entered : ∀ h, m.Holds h → ∃ e ∈ entered, e.2.Kept h
  gone_entered : ∀ x ∈ gone, ∃ e ∈ entered, e.2.Kept x.2
  stored_or_gone : ∀ e ∈ entered, (∃ h, m.Holds h ∧ e.2.Kept h) ∨ ∃ x ∈ gone, e.2.Kept x.2
  not_both : ∀ h, m.Holds h → ∀ x ∈ gone, x.2.id ≠ h.id
  balance : m.hosts.length + gone.length = entered.length

namespace Ledger

variable {entered gone : List (Nat × Host)} {m : Memory}

theorem empty : Ledger [] [] {} where
  entered_once := List.nodup_nil
  gone_once := List.nodup_nil
  stored_entered h hh := absurd hh (Memory.not_holds_empty h)
  gone_entered x hx := by cases hx
  stored_or_gone e he := by cases he
  not_both h hh := absurd hh (Memory.not_holds_empty h)
  balance := rfl

theorem add (hl : Ledger entered gone m) (hm : m.Consistent) (who : Nat) {host : Host}
    (hnew : ∀ e ∈ entered, e.2.id ≠ host.id) :
    Ledger (entered ++ [(who, host)]) gone (m.add host) where
  entered_once := nodup_ids_append hl.entered_once who hnew
  gone_once := hl.gone_once
  stored_entered h hh := by
    rcases Memory.holds_add.mp hh with rfl | ⟨hold, _⟩
    · exact ⟨(who, h), by simp, .refl h⟩
    · obtain ⟨e, he, hkept⟩ := hl.stored_entered h hold
      exact ⟨e, List.mem_append_left _ he, hkept⟩
  gone_entered x hx := by
    obtain ⟨e, he, hkept⟩ := hl.gone_entered x hx
    exact ⟨e, List.mem_append_left _ he, hkept⟩
  stored_or_gone e he := by
    rcases List.mem_append.mp he with he | he
    · refine (hl.stored_or_gone e he).imp_left ?_
      rintro ⟨h, hh, hkept⟩
      refine ⟨h, Memory.holds_add.mpr (.inr ⟨hh, ?_⟩), hkept⟩
      rw [hkept.id_eq]
      exact hnew e he
    · obtain rfl := List.mem_singleton.mp he
      exact .inl ⟨host, Memory.holds_add.mpr (.inl rfl), .refl host⟩
  not_both h hh x hx := by
    rcases Memory.holds_add.mp hh with rfl | ⟨hold, _⟩
    · obtain ⟨e, he, hkept⟩ := hl.gone_entered x hx
      rw [hkept.id_eq]
      exact hnew e he
    · exact hl.not_both h hold x hx
  balance := by
    have hfree : ∀ h, m.Holds h → h.id ≠ host.id := by
      intro h hh
      obtain ⟨e, he, hkept⟩ := hl.stored_entered h hh
      rw [hkept.id_eq]
      exact hnew e he
    rw [Memory.length_add hm hfree, List.length_append, List.length_singleton, ← hl.balance]
    omega

theorem remove (hl : Ledger entered gone m) (hm : m.Consistent) (who : Nat) {host : Host}
    (hh : m.Holds host) : Ledger entered (gone ++ [(who, host)]) (m.remove host) where
  entered_once := hl.entered_once
  gone_once := nodup_ids_append hl.gone_once who (hl.not_both host hh)
  stored_entered h hheld := hl.stored_entered h (Memory.holds_remove.mp hheld).1
  gone_entered x hx := by
    rcases List.mem_append.mp hx with hx | hx
    · exact hl.gone_entered x hx
    · obtain rfl := List.mem_singleton.mp hx
      exact hl.stored_entered host hh
  stored_or_gone e he := by
    rcases hl.stored_or_gone e he with ⟨h, hheld, hkept⟩ | ⟨x, hx, hkept⟩
    · by_cases hid : h.id = host.id
      · refine .inr ⟨(who, host), by simp, ?_⟩
        rwa [← hheld.eq_of_id hh hid]
      · exact .inl ⟨h, Memory.holds_remove.mpr ⟨hheld, hid⟩, hkept⟩
    · exact .inr ⟨x, List.mem_append_left _ hx, hkept⟩
  not_both h hheld x hx := by
    obtain ⟨hold, hid⟩ := Memory.holds_remove.mp hheld
    rcases List.mem_append.mp hx with hx | hx
    · exact hl.not_both h hold x hx
    · obtain rfl := List.mem_singleton.mp hx
      exact Ne.symm hid
  balance := by
    have hlen := Memory.length_remove hm hh
    have hbalance := hl.balance
    rw [List.length_append, List.length_singleton]
    omega

theorem renew (hl : Ledger entered gone m) (hm : m.Consistent) {host : Host} (hh : m.Holds host)
    (moment : Instant) : Ledger entered gone (m.renew { host with updatedAt := moment }) where
  entered_once := hl.entered_once
  gone_once := hl.gone_once
  stored_entered h hheld := by
    rcases Memory.holds_renew.mp hheld with rfl | ⟨hold, _⟩
    · obtain ⟨e, he, hkept⟩ := hl.stored_entered host hh
      exact ⟨e, he, hkept.refresh moment⟩
    · exact hl.stored_entered h hold
  gone_entered := hl.gone_entered
  stored_or_gone e he := by
    refine (hl.stored_or_gone e he).imp_left ?_
    rintro ⟨h, hheld, hkept⟩
    by_cases hid : h.id = host.id
    · rw [hheld.eq_of_id hh hid] at hkept
      exact ⟨_, Memory.holds_renew.mpr (.inl rfl), hkept.refresh moment⟩
    · exact ⟨h, Memory.holds_renew.mpr (.inr ⟨hheld, hid⟩), hkept⟩
  not_both h hheld x hx := by
    rcases Memory.holds_renew.mp hheld with rfl | ⟨hold, _⟩
    · exact hl.not_both host hh x hx
    · exact hl.not_both h hold x hx
  balance := by
    rw [Memory.length_renew hm hh]
    exact hl.balance

theorem merge (hl : Ledger entered gone m) (document : Json) :
    Ledger entered gone { m with settings := some document } :=
  ⟨hl.entered_once, hl.gone_once, hl.stored_entered, hl.gone_entered, hl.stored_or_gone,
    hl.not_both, hl.balance⟩

end Ledger

/-! ## The moves of a run -/

/-- The host that a move brought into the store, and the demand that made the move. -/
def Move.entry? (move : Move) : Option (Nat × Host) :=
  match move.who?, move.change? with
  | some who, some (.added host) => some (who, host)
  | _, _ => none

/-- The host that a move took out of the store, and the demand that made the move. -/
def Move.exit? (move : Move) : Option (Nat × Host) :=
  match move.who?, move.change? with
  | some who, some (.removed host) => some (who, host)
  | _, _ => none

def entries (moves : List Move) : List (Nat × Host) := moves.filterMap Move.entry?

def exits (moves : List Move) : List (Nat × Host) := moves.filterMap Move.exit?

theorem entries_append (past : List Move) (move : Move) :
    entries (past ++ [move]) = entries past ++ move.entry?.toList :=
  filterMap_concat _ past move

theorem exits_append (past : List Move) (move : Move) :
    exits (past ++ [move]) = exits past ++ move.exit?.toList :=
  filterMap_concat _ past move

theorem Move.exists_who? {move : Move} {change : Change} (h : move.change? = some change) :
    ∃ who, move.who? = some who := by
  cases move <;> first | exact ⟨_, rfl⟩ | cases h

theorem Move.entry?_eq_some {move : Move} {who : Nat} {host : Host} :
    move.entry? = some (who, host) ↔ move.own? Move.change? who = some (.added host) := by
  unfold entry? own?
  split <;> simp_all

theorem Move.exit?_eq_some {move : Move} {who : Nat} {host : Host} :
    move.exit? = some (who, host) ↔ move.own? Move.change? who = some (.removed host) := by
  unfold exit? own?
  split <;> simp_all

theorem mem_entries {moves : List Move} {who : Nat} {host : Host} :
    (who, host) ∈ entries moves ↔ .added host ∈ changesBy who moves := by
  simp only [entries, changesBy, doneBy, List.mem_filterMap, Move.entry?_eq_some]

theorem mem_exits {moves : List Move} {who : Nat} {host : Host} :
    (who, host) ∈ exits moves ↔ .removed host ∈ changesBy who moves := by
  simp only [exits, changesBy, doneBy, List.mem_filterMap, Move.exit?_eq_some]

theorem Ledger.append {past : List Move} {move : Move} {m m' : Memory}
    (hl : Ledger (entries past) (exits past) m) (hm : m.Consistent)
    (ht : m.Takes move.change? m')
    (hnew : ∀ host, move.change? = some (.added host) → ∀ e ∈ entries past, e.2.id ≠ host.id) :
    Ledger (entries (past ++ [move])) (exits (past ++ [move])) m' := by
  rw [entries_append, exits_append]
  unfold Move.entry? Move.exit?
  generalize hc : move.change? = change at ht hnew
  cases ht with
  | still => simpa using hl
  | @added host newId freeCode =>
    obtain ⟨who, hw⟩ := Move.exists_who? hc
    simpa [hw] using hl.add hm who (hnew host rfl)
  | @removed host held =>
    obtain ⟨who, hw⟩ := Move.exists_who? hc
    simpa [hw] using hl.remove hm who held
  | renewed held moment => simpa using hl.renew hm held moment
  | merged patch => simpa using hl.merge _

/-! ## Draws -/

def MemoryTransition.ids (b : MemoryTransition) : List String :=
  match b.move with
  | .asks _ (.insert _) _ => b.before.draws.idsUntil b.after.draws
  | _ => []

def drawnIds (trace : List MemoryTransition) : List String := trace.flatMap MemoryTransition.ids

namespace MemorySystem

variable {terms : Terms} {guard : Guard} {start s s' : MemorySystem} {move : Move}
  {trace : List MemoryTransition}

theorem Disturbed.id_drawn (h : s.Disturbed terms guard move s') {host : Host}
    (hc : move.change? = some (.added host)) : host.id ∈ (MemoryTransition.mk s move s').ids := by
  obtain ⟨who, candidate, rfl⟩ := Move.change?_eq_added hc
  obtain ⟨_, _, _, -, hrun, hx, -⟩ := Threads.Step.asks_inv h
  have hinserted : (s.store.insert candidate s.draws).1 = some host := Outcome.answered.inj hrun
  have hdraws : s'.draws = (s.store.insert candidate s.draws).2.2 := congrArg Prod.snd hx
  show host.id ∈ s.draws.idsUntil s'.draws
  rw [hdraws]
  exact Memory.insert_drawn (Prod.ext hinserted rfl)

/-- The books of a run from an empty store in which no id is drawn twice. -/
theorem Plays.ledger (h : start.Plays terms guard trace s) (hm : start.store = {})
    (hd : (drawnIds trace).Nodup) :
    Ledger (entries (trace.map (·.move))) (exits (trace.map (·.move))) s.store ∧
      ∀ e ∈ entries (trace.map (·.move)), e.2.id ∈ drawnIds trace := by
  induction h with
  | nil =>
    rw [hm]
    exact ⟨.empty, fun e he => by cases he⟩
  | @snoc trace s s' move run step ih =>
    unfold drawnIds at hd ⊢
    rw [List.flatMap_append, List.flatMap_singleton] at hd ⊢
    obtain ⟨hpast, _, hfresh⟩ := List.nodup_append.mp hd
    obtain ⟨hl, hdrawn⟩ := ih hpast
    have hcons := run.consistent (hm ▸ Memory.consistent_empty)
    rw [List.map_append, List.map_singleton]
    refine ⟨hl.append hcons (step.moved.takes hcons) fun host hc e he hid => ?_, fun e he => ?_⟩
    · exact hfresh _ (hdrawn e he) _ (step.id_drawn hc) hid
    · rw [entries_append, List.mem_append] at he
      rcases he with he | he
      · exact List.mem_append_left _ (hdrawn e he)
      · have hentry : move.entry? = some (e.1, e.2) := by simpa using he
        rw [Move.entry?_eq_some, Move.own?] at hentry
        split at hentry
        · exact List.mem_append_right _ (step.id_drawn hentry)
        · cases hentry

end MemorySystem
end Rendezvous
