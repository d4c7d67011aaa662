import Rendezvous.Proofs.Holding

/-!
# The two keys of a host

`Memory.Reachable` is a store that commands made of an empty one. In it ids and codes lead to the
same hosts, no two hosts share a key, both deletes do the same, and with a host both of its keys are
gone: `Memory.reachable_paired`.
-/

namespace Rendezvous.Memory

/-- Any commands in any order; the draws that a command finds need not be those that the last one
left. -/
inductive Reachable : Memory → Prop
  | empty : Reachable {}
  | run {m : Memory} (h : Reachable m) (command : Command) (draws : Draws) :
    Reachable (m.run draws command).2.1

theorem Reachable.consistent {m : Memory} (h : Reachable m) : m.Consistent := by
  induction h with
  | empty => exact consistent_empty
  | run _ command draws ih => exact ih.run draws command

/-- Neither key of the host leads anywhere any more, and all other keys lead where they did. -/
structure Without (m : Memory) (host : Host) (m' : Memory) : Prop where
  id : m'.findById host.id = none
  code : m'.findByCode host.code = none
  otherId : ∀ id, id ≠ host.id → m'.findById id = m.findById id
  otherCode : ∀ code, code ≠ host.code → m'.findByCode code = m.findByCode code

/-- Ids and codes lead to the same hosts, whichever of them is asked for or deleted by. -/
structure Paired (m : Memory) : Prop where
  id_eq : ∀ id h, m.hosts.get? id = some h → h.id = id
  code_iff : ∀ code id,
    m.codes.get? code = some id ↔ ∃ h, m.hosts.get? id = some h ∧ h.code = code
  ids_nodup : (m.list.map (·.id)).Nodup
  codes_nodup : (m.list.map (·.code)).Nodup
  mem_list_iff_id : ∀ h, h ∈ m.list ↔ m.findById h.id = some h
  mem_list_iff_code : ∀ h, h ∈ m.list ↔ m.findByCode h.code = some h
  /-- No entry of the index of codes leads to a host that is not there. -/
  findByCode_of_get? : ∀ code id, m.codes.get? code = some id →
    ∃ h, m.findByCode code = some h ∧ h.id = id
  deleteByCode_eq : ∀ code, m.deleteByCode code =
    match m.findByCode code with
    | some h => m.deleteById h.id
    | none => (none, m)
  deletedById : ∀ id h m', m.deleteById id = (some h, m') → h.id = id ∧ h ∈ m.list ∧ m.Without h m'
  deletedByCode : ∀ code h m', m.deleteByCode code = (some h, m') →
    h.code = code ∧ h ∈ m.list ∧ m.Without h m'
  /-- Each stored host can be deleted by either of its keys. -/
  deletable : ∀ h ∈ m.list, (m.deleteById h.id).1 = some h ∧ (m.deleteByCode h.code).1 = some h

/-! ## From agreement of the indexes -/

section

variable {m : Memory} (hm : m.Consistent)

include hm

theorem ids_nodup : (m.list.map (·.id)).Nodup := by
  have hperm : (m.list.map (·.id)).Perm (m.hosts.values.map (·.id)) :=
    (List.mergeSort_perm m.hosts.values Host.le).map (·.id)
  rw [hperm.nodup_iff, map_id_values hm]
  exact hm.nodup

theorem codes_nodup : (m.list.map (·.code)).Nodup := by
  have hids : m.list.Pairwise fun a b => a.id ≠ b.id := List.pairwise_map.mp (ids_nodup hm)
  apply List.pairwise_map.mpr
  refine hids.imp_of_mem fun {a b} ha hb hne hcode => hne ?_
  rw [((mem_list_iff hm).mp ha).eq_of_code hm ((mem_list_iff hm).mp hb) hcode]

theorem mem_list_iff_findByCode {h : Host} : h ∈ m.list ↔ m.findByCode h.code = some h := by
  rw [mem_list_iff hm, findByCode_eq_some_iff hm]
  simp

theorem findByCode_of_get? {code id : String} (hc : m.codes.get? code = some id) :
    ∃ h, m.findByCode code = some h ∧ h.id = id := by
  obtain ⟨h, hf, hcode⟩ := hm.code_iff.mp hc
  obtain ⟨hh, hid⟩ := (findById_eq_some_iff hm).mp hf
  exact ⟨h, (findByCode_eq_some_iff hm).mpr ⟨hh, hcode⟩, hid⟩

theorem deleteById_of_holds {h : Host} (hh : m.Holds h) :
    m.deleteById h.id = (some h, m.remove h) := by
  rcases m.deleteById_cases hm h.id with ⟨_, hn⟩ | ⟨g, hd, hg, hid⟩
  · rw [show m.findById h.id = some h from hh] at hn
    cases hn
  · rw [hd, hg.eq_of_id hh hid]

theorem deleteByCode_of_holds {h : Host} (hh : m.Holds h) :
    m.deleteByCode h.code = (some h, m.remove h) := by
  rcases m.deleteByCode_cases hm h.code with ⟨_, hn⟩ | ⟨g, hd, hg, hcode⟩
  · exact absurd rfl ((findByCode_eq_none_iff hm).mp hn h hh)
  · rw [hd, hg.eq_of_code hm hh hcode]

theorem deleteByCode_eq (code : String) : m.deleteByCode code =
    match m.findByCode code with
    | some h => m.deleteById h.id
    | none => (none, m) := by
  cases hf : m.findByCode code with
  | none =>
    rcases m.deleteByCode_cases hm code with ⟨hd, _⟩ | ⟨h, _, hh, hcode⟩
    · exact hd
    · exact absurd hcode ((findByCode_eq_none_iff hm).mp hf h hh)
  | some h =>
    obtain ⟨hh, rfl⟩ := (findByCode_eq_some_iff hm).mp hf
    show m.deleteByCode h.code = m.deleteById h.id
    rw [deleteByCode_of_holds hm hh, deleteById_of_holds hm hh]

theorem without_remove {host : Host} (hh : m.Holds host) : m.Without host (m.remove host) := by
  have hr := hm.remove hh
  refine ⟨?_, ?_, fun id hne => ?_, fun code hne => ?_⟩
  · rw [findById_remove, if_pos rfl]
  · rw [findByCode_eq_none_iff hr]
    intro h hheld hcode
    obtain ⟨hold, hid⟩ := holds_remove.mp hheld
    exact hid (by rw [hold.eq_of_code hm hh hcode])
  · rw [findById_remove, if_neg hne]
  · apply Option.ext
    intro h
    rw [findByCode_eq_some_iff hr, findByCode_eq_some_iff hm, holds_remove]
    -- the host of another code has another id
    refine ⟨fun ⟨⟨hold, _⟩, hcode⟩ => ⟨hold, hcode⟩, fun ⟨hold, hcode⟩ => ⟨⟨hold, ?_⟩, hcode⟩⟩
    intro hid
    apply hne
    rw [← hcode, hold.eq_of_id hh hid]

theorem Consistent.paired : m.Paired where
  id_eq _ _ := hm.id_eq
  code_iff _ _ := hm.code_iff
  ids_nodup := ids_nodup hm
  codes_nodup := codes_nodup hm
  mem_list_iff_id _ := mem_list_iff hm
  mem_list_iff_code _ := mem_list_iff_findByCode hm
  findByCode_of_get? _ _ := findByCode_of_get? hm
  deleteByCode_eq := deleteByCode_eq hm
  deletedById id h m' hd := by
    rcases m.deleteById_cases hm id with ⟨he, _⟩ | ⟨g, he, hh, hid⟩
    · rw [he] at hd
      cases hd
    · rw [he] at hd
      cases hd
      exact ⟨hid, (mem_list_iff hm).mpr hh, without_remove hm hh⟩
  deletedByCode code h m' hd := by
    rcases m.deleteByCode_cases hm code with ⟨he, _⟩ | ⟨g, he, hh, hcode⟩
    · rw [he] at hd
      cases hd
    · rw [he] at hd
      cases hd
      exact ⟨hcode, (mem_list_iff hm).mpr hh, without_remove hm hh⟩
  deletable h hmem := by
    have hh := (mem_list_iff hm).mp hmem
    rw [deleteById_of_holds hm hh, deleteByCode_of_holds hm hh]
    exact ⟨rfl, rfl⟩

end

/-! ## In every store that commands lead to -/

theorem reachable_paired {m : Memory} (h : Reachable m) : m.Paired := h.consistent.paired

/-- A host is registered, refreshed and deleted by its code. Then another one gets its id, and a
third one, whose id is drawn at the second try, its code. -/
def reused : Memory :=
  let candidate (address code : String) : Candidate := ⟨address, .last 65535, code, .epoch⟩
  let first := (run {} {} (.insert (candidate "10.0.0.1" "ABCDEF"))).2.1
  let touched := (first.run {} (.touch "00000000000040008000000000000001" .epoch)).2.1
  let freed := (touched.run {} (.deleteByCode "ABCDEF")).2.1
  let other := (freed.run {} (.insert (candidate "10.0.0.2" "GHJKLM"))).2.1
  (other.run {} (.insert (candidate "10.0.0.3" "ABCDEF"))).2.1

theorem reachable_reused : Reachable reused :=
  ((((Reachable.empty.run _ _).run _ _).run _ _).run _ _).run _ _

theorem reachable_paired_reused : Reachable reused ∧ reused.Paired ∧
    (reused.findByCode "ABCDEF").map (·.id) = some "00000000000040008000000000000002" ∧
    (reused.findByCode "GHJKLM").map (·.id) = some "00000000000040008000000000000001" :=
  ⟨reachable_reused, reachable_paired reachable_reused, by decide, by decide⟩

end Rendezvous.Memory
