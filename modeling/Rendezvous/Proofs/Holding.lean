import Rendezvous.Proofs.Index
import Rendezvous.Proofs.Listing
import Rendezvous.Store.Memory

/-!
# What a store in memory holds

`Memory.Holds` is the set of hosts of a store in memory, `Memory.Consistent` says that both of its
indexes agree on them. Each operation keeps that agreement, and its answer and what the store holds
afterwards are told by what it held before.
-/

namespace Rendezvous

namespace Memory

/-- The host is stored, under its own id. -/
def Holds (m : Memory) (h : Host) : Prop := m.findById h.id = some h

/-- Hosts are stored under their own ids, and the codes lead to all of them and nowhere else. -/
structure Consistent (m : Memory) : Prop where
  nodup : m.hosts.keys.Nodup
  id_eq : ∀ {id : String} {h : Host}, m.findById id = some h → h.id = id
  code_iff : ∀ {code id : String},
    m.codes.get? code = some id ↔ ∃ h, m.findById id = some h ∧ h.code = code

theorem consistent_empty : Consistent {} where
  nodup := List.nodup_nil
  id_eq h := by cases h
  code_iff := by
    intro code id
    constructor
    · intro h
      cases h
    · rintro ⟨h, hf, _⟩
      cases hf

theorem not_holds_empty (h : Host) : ¬ Holds {} h := by
  intro hh
  cases hh

/-! ## Look-ups -/

section

variable {m : Memory} (hm : m.Consistent)

include hm

theorem findById_eq_some_iff {id : String} {h : Host} :
    m.findById id = some h ↔ m.Holds h ∧ h.id = id := by
  constructor
  · intro hf
    have hid := hm.id_eq hf
    exact ⟨by rw [Holds, hid, hf], hid⟩
  · rintro ⟨hh, rfl⟩
    exact hh

theorem findByCode_eq_some_iff {code : String} {h : Host} :
    m.findByCode code = some h ↔ m.Holds h ∧ h.code = code := by
  constructor
  · intro hf
    obtain ⟨id, hc, hi⟩ := Option.bind_eq_some_iff.mp hf
    obtain ⟨h', hf', hcode⟩ := hm.code_iff.mp hc
    obtain rfl : h' = h := Option.some.inj (hf'.symm.trans hi)
    exact ⟨((findById_eq_some_iff hm).mp hf').1, hcode⟩
  · rintro ⟨hh, hcode⟩
    have hc : m.codes.get? code = some h.id := hm.code_iff.mpr ⟨h, hh, hcode⟩
    exact Option.bind_eq_some_iff.mpr ⟨h.id, hc, hh⟩

theorem findById_eq_none_iff {id : String} :
    m.findById id = none ↔ ∀ h, m.Holds h → h.id ≠ id := by
  rw [Option.eq_none_iff_forall_not_mem]
  constructor
  · intro hn h hh hid
    exact hn h ((findById_eq_some_iff hm).mpr ⟨hh, hid⟩)
  · intro hn h hh
    obtain ⟨hh, hid⟩ := (findById_eq_some_iff hm).mp hh
    exact hn h hh hid

theorem findByCode_eq_none_iff {code : String} :
    m.findByCode code = none ↔ ∀ h, m.Holds h → h.code ≠ code := by
  rw [Option.eq_none_iff_forall_not_mem]
  constructor
  · intro hn h hh hcode
    exact hn h ((findByCode_eq_some_iff hm).mpr ⟨hh, hcode⟩)
  · intro hn h hh
    obtain ⟨hh, hcode⟩ := (findByCode_eq_some_iff hm).mp hh
    exact hn h hh hcode

theorem codes_eq_none_iff {code : String} :
    m.codes.get? code = none ↔ ∀ h, m.Holds h → h.code ≠ code := by
  rw [Option.eq_none_iff_forall_not_mem]
  constructor
  · intro hn h hh hcode
    exact hn h.id (hm.code_iff.mpr ⟨h, hh, hcode⟩)
  · intro hn id hid
    obtain ⟨h, hf, hcode⟩ := hm.code_iff.mp hid
    exact hn h ((findById_eq_some_iff hm).mp hf).1 hcode

omit hm in
theorem Holds.eq_of_id {a b : Host} (ha : m.Holds a) (hb : m.Holds b) (he : a.id = b.id) :
    a = b := by
  rw [Holds, he] at ha
  exact Option.some.inj (ha.symm.trans hb)

theorem Holds.eq_of_code {a b : Host} (ha : m.Holds a) (hb : m.Holds b) (he : a.code = b.code) :
    a = b := by
  have h := (findByCode_eq_some_iff hm).mpr ⟨ha, he⟩
  rw [(findByCode_eq_some_iff hm).mpr ⟨hb, rfl⟩] at h
  exact (Option.some.inj h).symm

theorem mem_values_iff {h : Host} : h ∈ m.hosts.values ↔ m.Holds h := by
  constructor
  · intro hv
    obtain ⟨⟨id, h'⟩, hp, rfl⟩ := List.mem_map.mp hv
    have hf : m.findById id = some h' := Index.get?_of_mem hm.nodup hp
    exact ((findById_eq_some_iff hm).mp hf).1
  · intro hh
    exact List.mem_map_of_mem (f := (·.2)) (Index.mem_of_get? hh)

theorem mem_list_iff {h : Host} : h ∈ m.list ↔ m.Holds h := by
  rw [list, List.mem_mergeSort]
  exact mem_values_iff hm

theorem map_id_values : m.hosts.values.map (·.id) = m.hosts.keys := by
  rw [Index.values, Index.keys, List.map_map]
  refine List.map_congr_left ?_
  rintro ⟨id, h⟩ hp
  exact hm.id_eq (Index.get?_of_mem hm.nodup hp)

/-- A listing is in order. -/
theorem before_list : m.list.Pairwise Host.Before := by
  refine Host.before_mergeSort ?_
  rw [map_id_values hm]
  exact hm.nodup

end

/-! ## Changes -/

def add (m : Memory) (host : Host) : Memory :=
  { m with hosts := m.hosts.set host.id host, codes := m.codes.set host.code host.id }

def remove (m : Memory) (host : Host) : Memory :=
  { m with hosts := m.hosts.erase host.id, codes := m.codes.erase host.code }

/-- The store with a host in place of the one with its id. -/
def renew (m : Memory) (host : Host) : Memory := { m with hosts := m.hosts.set host.id host }

theorem findById_add (m : Memory) (host : Host) (id : String) :
    (m.add host).findById id = if id = host.id then some host else m.findById id :=
  Index.get?_set m.hosts host.id id host

theorem findById_remove (m : Memory) (host : Host) (id : String) :
    (m.remove host).findById id = if id = host.id then none else m.findById id :=
  Index.get?_erase m.hosts host.id id

theorem findById_renew (m : Memory) (host : Host) (id : String) :
    (m.renew host).findById id = if id = host.id then some host else m.findById id :=
  Index.get?_set m.hosts host.id id host

theorem holds_add {m : Memory} {host h : Host} :
    (m.add host).Holds h ↔ h = host ∨ (m.Holds h ∧ h.id ≠ host.id) := by
  rw [Holds, findById_add]
  by_cases hid : h.id = host.id
  · rw [if_pos hid]
    constructor
    · intro he
      exact .inl (Option.some.inj he).symm
    · rintro (rfl | ⟨_, hne⟩)
      · rfl
      · exact absurd hid hne
  · rw [if_neg hid]
    constructor
    · intro hh
      exact .inr ⟨hh, hid⟩
    · rintro (rfl | ⟨hh, _⟩)
      · exact absurd rfl hid
      · exact hh

theorem holds_renew {m : Memory} {host h : Host} :
    (m.renew host).Holds h ↔ h = host ∨ (m.Holds h ∧ h.id ≠ host.id) := by
  rw [← holds_add, Holds, Holds, findById_renew, findById_add]

theorem holds_remove {m : Memory} {host h : Host} :
    (m.remove host).Holds h ↔ m.Holds h ∧ h.id ≠ host.id := by
  rw [Holds, findById_remove]
  by_cases hid : h.id = host.id
  · simp [hid]
  · simp [Holds, hid]

section

variable {m : Memory} (hm : m.Consistent)

include hm

theorem Consistent.add {host : Host} (hid : ∀ h, m.Holds h → h.id ≠ host.id)
    (hcode : ∀ h, m.Holds h → h.code ≠ host.code) : (m.add host).Consistent where
  nodup := Index.nodup_set hm.nodup host.id host
  id_eq := by
    intro id h hf
    rw [findById_add] at hf
    split at hf
    · next he =>
      cases hf
      exact he.symm
    · exact hm.id_eq hf
  code_iff := by
    intro code id
    have hget : (m.add host).codes.get? code
        = if code = host.code then some host.id else m.codes.get? code :=
      Index.get?_set m.codes host.code code host.id
    rw [hget]
    by_cases hc : code = host.code
    · rw [if_pos hc]
      constructor
      · intro he
        cases he
        exact ⟨host, by rw [findById_add, if_pos rfl], hc.symm⟩
      · rintro ⟨h, hf, rfl⟩
        rw [findById_add] at hf
        split at hf
        · next he => rw [he]
        · exact absurd hc (hcode h ((findById_eq_some_iff hm).mp hf).1)
    · rw [if_neg hc, hm.code_iff]
      constructor
      · rintro ⟨h, hf, hcd⟩
        have hne : id ≠ host.id := by
          rintro rfl
          exact hid h ((findById_eq_some_iff hm).mp hf).1 (hm.id_eq hf)
        exact ⟨h, by rw [findById_add, if_neg hne, hf], hcd⟩
      · rintro ⟨h, hf, hcd⟩
        rw [findById_add] at hf
        split at hf
        · cases hf
          exact absurd hcd.symm hc
        · exact ⟨h, hf, hcd⟩

theorem Consistent.remove {host : Host} (hh : m.Holds host) : (m.remove host).Consistent where
  nodup := Index.nodup_erase hm.nodup host.id
  id_eq := by
    intro id h hf
    rw [findById_remove] at hf
    split at hf
    · cases hf
    · exact hm.id_eq hf
  code_iff := by
    intro code id
    have hget : (m.remove host).codes.get? code
        = if code = host.code then none else m.codes.get? code :=
      Index.get?_erase m.codes host.code code
    have hback : ∀ h : Host, (m.remove host).findById id = some h ↔
        id ≠ host.id ∧ m.findById id = some h := by
      intro h
      rw [findById_remove]
      split
      · next he => simp [he]
      · next hne => simp [hne]
    rw [hget]
    by_cases hc : code = host.code
    · rw [if_pos hc]
      constructor
      · intro he
        cases he
      · rintro ⟨h, hf, hcd⟩
        obtain ⟨hne, hf⟩ := (hback h).mp hf
        obtain ⟨hh', hid⟩ := (findById_eq_some_iff hm).mp hf
        have he := hh'.eq_of_code hm hh (hcd.trans hc)
        exact absurd (by rw [← hid, he]) hne
    · rw [if_neg hc, hm.code_iff]
      constructor
      · rintro ⟨h, hf, hcd⟩
        refine ⟨h, (hback h).mpr ⟨?_, hf⟩, hcd⟩
        rintro rfl
        rw [hh] at hf
        cases hf
        exact hc hcd.symm
      · rintro ⟨h, hf, hcd⟩
        exact ⟨h, ((hback h).mp hf).2, hcd⟩

theorem Consistent.renew {host new : Host} (hh : m.Holds host) (hid : new.id = host.id)
    (hcode : new.code = host.code) : (m.renew new).Consistent where
  nodup := Index.nodup_set hm.nodup new.id new
  id_eq := by
    intro id h hf
    rw [findById_renew] at hf
    split at hf
    · next he =>
      cases hf
      exact he.symm
    · exact hm.id_eq hf
  code_iff := by
    intro code id
    show m.codes.get? code = some id ↔ _
    rw [hm.code_iff]
    by_cases he : id = new.id
    · have hold : m.findById id = some host := by rw [he, hid, hh]
      have hnew : (m.renew new).findById id = some new := by rw [findById_renew, if_pos he]
      rw [hold, hnew]
      simp [hcode]
    · rw [findById_renew, if_neg he]

end

/-! ## Operations -/

theorem freshId_eq_some {hosts : Index Host} {tries : Nat} {draws rest : Draws} {id : String}
    (h : freshId hosts tries draws = (some id, rest)) : hosts.get? id = none := by
  induction tries generalizing draws with
  | zero => cases h
  | succ tries ih =>
    simp only [freshId] at h
    split at h
    · exact ih h
    · next hc =>
      cases h
      exact Index.contains_eq_false.mp (Bool.eq_false_iff.mpr hc)

/-- What an insert comes to: a refusal that changes nothing, or one host more, whose id no stored
host has and whose code no stored host holds. -/
theorem insert_cases (m : Memory) (candidate : Candidate) (draws : Draws) :
    (∃ rest, m.insert candidate draws = (none, m, rest)) ∨
      ∃ id rest, m.insert candidate draws
          = (some (candidate.host id), m.add (candidate.host id), rest) ∧
        m.findById id = none ∧ m.codes.get? candidate.code = none := by
  unfold insert
  split
  · exact .inl ⟨draws, rfl⟩
  · next hc =>
    have hcode := Index.contains_eq_false.mp (Bool.eq_false_iff.mpr hc)
    split
    · next rest _ => exact .inl ⟨rest, rfl⟩
    · next id rest hf => exact .inr ⟨id, rest, rfl, freshId_eq_some hf, hcode⟩

theorem deleteById_cases (m : Memory) (hm : m.Consistent) (id : String) :
    (m.deleteById id = (none, m) ∧ m.findById id = none) ∨
      ∃ h, m.deleteById id = (some h, m.remove h) ∧ m.Holds h ∧ h.id = id := by
  unfold deleteById
  split
  · next hn => exact .inl ⟨rfl, hn⟩
  · next h hs =>
    obtain ⟨hh, rfl⟩ := (findById_eq_some_iff hm).mp hs
    exact .inr ⟨h, rfl, hh, rfl⟩

theorem deleteByCode_cases (m : Memory) (hm : m.Consistent) (code : String) :
    (m.deleteByCode code = (none, m) ∧ m.findByCode code = none) ∨
      ∃ h, m.deleteByCode code = (some h, m.remove h) ∧ m.Holds h ∧ h.code = code := by
  unfold deleteByCode
  split
  · next hn => exact .inl ⟨rfl, by rw [findByCode, hn, Option.bind_none]⟩
  · next id hs =>
    obtain ⟨h, hf, hcode⟩ := hm.code_iff.mp hs
    obtain ⟨hh, hid⟩ := (findById_eq_some_iff hm).mp hf
    rcases m.deleteById_cases hm id with ⟨_, hn⟩ | ⟨h', hd, hh', hid'⟩
    · rw [hf] at hn
      cases hn
    · obtain rfl : h' = h := hh'.eq_of_id hh (hid'.trans hid.symm)
      exact .inr ⟨h', hd, hh, hcode⟩

theorem touch_cases (m : Memory) (hm : m.Consistent) (id : String) (moment : Instant) :
    (m.touch id moment = (none, m) ∧ m.findById id = none) ∨
      ∃ h, m.touch id moment
          = (some { h with updatedAt := moment }, m.renew { h with updatedAt := moment }) ∧
        m.Holds h ∧ h.id = id := by
  unfold touch
  split
  · next hn => exact .inl ⟨rfl, hn⟩
  · next h hs =>
    obtain ⟨hh, rfl⟩ := (findById_eq_some_iff hm).mp hs
    exact .inr ⟨h, rfl, hh, rfl⟩

/-- Every command keeps both indexes in agreement. -/
theorem Consistent.run {m : Memory} (hm : m.Consistent) (draws : Draws) (command : Command) :
    (m.run draws command).2.1.Consistent := by
  cases command with
  | insert candidate =>
    simp only [Memory.run]
    rcases m.insert_cases candidate draws with ⟨rest, he⟩ | ⟨id, rest, he, hid, hcode⟩
    · rw [he]
      exact hm
    · rw [he]
      exact hm.add ((findById_eq_none_iff hm).mp hid) ((codes_eq_none_iff hm).mp hcode)
  | findById id => exact hm
  | findByCode code => exact hm
  | deleteById id =>
    simp only [Memory.run]
    rcases m.deleteById_cases hm id with ⟨he, _⟩ | ⟨h, he, hh, _⟩
    · rw [he]
      exact hm
    · rw [he]
      exact hm.remove hh
  | deleteByCode code =>
    simp only [Memory.run]
    rcases m.deleteByCode_cases hm code with ⟨he, _⟩ | ⟨h, he, hh, _⟩
    · rw [he]
      exact hm
    · rw [he]
      exact hm.remove hh
  | list => exact hm
  | touch id moment =>
    simp only [Memory.run]
    rcases m.touch_cases hm id moment with ⟨he, _⟩ | ⟨h, he, hh, _⟩
    · rw [he]
      exact hm
    · rw [he]
      exact hm.renew hh rfl rfl
  | settings => exact hm
  | merge patch => exact ⟨hm.nodup, hm.id_eq, hm.code_iff⟩

end Memory
end Rendezvous
