import Rendezvous.Proofs.Stamps
import Rendezvous.Store.Database

/-!
# Tables of hosts

A table whose rows were all written for hosts is searched, changed and listed as the list of those
hosts is. Only instants that are read back as they were may be written.
-/

namespace Rendezvous

def Host.Storable (h : Host) : Prop := h.createdAt.Storable ∧ h.updatedAt.Storable

instance (h : Host) : Decidable h.Storable := inferInstanceAs (Decidable (_ ∧ _))

/-! ## Rows -/

namespace Row

variable {h : Host}

theorem asPort_ofHost (port : Port) : (Cell.integer port.val).asPort .port = .ok port := by
  have hrange : (0 : Int) ≤ (port.val : Int) ∧ (port.val : Int) < 65536 := by
    have hlt := port.isLt
    omega
  rw [Cell.asPort, Port.ofInt?, dif_pos hrange]
  rfl

theorem instant_full {t : Instant} (ht : t.Storable) (column : Column) :
    instant column (Stamp.full t) = .ok t := by
  rw [instant, Stamp.strict_full ht]

theorem host_ofHost (hs : h.Storable) : (ofHost h).host = .ok h := by
  simp only [host, ofHost, Cell.asText, ok_bind, asPort_ofHost, instant_full hs.1,
    instant_full hs.2]
  rfl

theorem id_ofHost_eq {id : String} : (ofHost h).id = .text id ↔ h.id = id := by
  rw [ofHost, Cell.text.injEq]

theorem code_ofHost_eq {code : String} : (ofHost h).code = .text code ↔ h.code = code := by
  rw [ofHost, Cell.text.injEq]

theorem full_injective {a b : Instant} (ha : a.Storable) (hb : b.Storable)
    (h : Stamp.full a = Stamp.full b) : a = b := by
  have hread := Stamp.strict_full ha
  rw [h, Stamp.strict_full hb] at hread
  exact (Except.ok.inj hread).symm

/-- Rows are ordered by their texts as hosts are by their instants. -/
theorem le_ofHost {a b : Host} (ha : a.Storable) (hb : b.Storable) :
    le (ofHost a) (ofHost b) = a.le b := by
  simp only [le, ofHost, Host.le, Cell.text.injEq, Cell.le]
  by_cases heq : a.createdAt = b.createdAt
  · rw [if_pos heq, if_pos (congrArg Stamp.full heq)]
  · have hne : ¬ Stamp.full a.createdAt = Stamp.full b.createdAt :=
      fun h => heq (full_injective ha.1 hb.1 h)
    rw [if_neg heq, if_neg hne, Bool.eq_iff_iff, decide_eq_true_eq]
    exact Stamp.full_le_iff ha.1 hb.1

end Row

/-! ## Tables -/

namespace Database

/-- The table has one row for each host of a list, in that order. -/
structure Keeps (db : Database) (hosts : List Host) : Prop where
  rows : db.hosts = some (hosts.map Row.ofHost)
  storable : ∀ h ∈ hosts, h.Storable

variable {db : Database} {hosts : List Host}

theorem rows_of_hosts (hrows : db.hosts = some (hosts.map Row.ofHost)) (during : Activity) :
    db.rows during = .ok (hosts.map Row.ofHost) := by
  rw [Database.rows, hrows]

theorem queryOne_of_none {during : Activity} {column : Row → Cell} {key : String} {rows : List Row}
    (hrows : db.rows during = .ok rows)
    (hfind : rows.find? (fun r => column r = .text key) = none) :
    db.queryOne during column key = .ok none := by
  rw [queryOne, hrows, ok_bind]
  simp only [hfind]
  rfl

theorem queryOne_of_some {during : Activity} {column : Row → Cell} {key : String} {rows : List Row}
    {row : Row} {h : Host} (hrows : db.rows during = .ok rows)
    (hfind : rows.find? (fun r => column r = .text key) = some row) (hrow : row.host = .ok h) :
    db.queryOne during column key = .ok (some h) := by
  rw [queryOne, hrows, ok_bind]
  simp only [hfind, hrow]
  rfl

theorem find?_ofHost {column : Row → Cell} {key : String} {p : Host → Bool}
    (hp : ∀ h, column (Row.ofHost h) = .text key ↔ p h = true) (hosts : List Host) :
    (hosts.map Row.ofHost).find? (fun r => column r = .text key)
      = (hosts.find? p).map Row.ofHost := by
  have hcomp : ((fun r : Row => decide (column r = .text key)) ∘ Row.ofHost) = p := by
    funext h
    rw [Bool.eq_iff_iff, Function.comp_apply, decide_eq_true_eq]
    exact hp h
  rw [List.find?_map, hcomp]

theorem Keeps.queryOne (hk : db.Keeps hosts) (during : Activity) {column : Row → Cell}
    {key : String} {p : Host → Bool} (hp : ∀ h, column (Row.ofHost h) = .text key ↔ p h = true) :
    db.queryOne during column key = .ok (hosts.find? p) := by
  have hrows := rows_of_hosts hk.rows during
  have hrow := find?_ofHost hp hosts
  cases hfind : hosts.find? p with
  | none =>
    rw [hfind, Option.map_none] at hrow
    exact queryOne_of_none hrows hrow
  | some h =>
    rw [hfind, Option.map_some] at hrow
    exact queryOne_of_some hrows hrow
      (Row.host_ofHost (hk.storable h (List.mem_of_find?_eq_some hfind)))

theorem Keeps.findById (hk : db.Keeps hosts) (id : String) :
    db.findById id = .ok (hosts.find? fun h => h.id = id) :=
  hk.queryOne .queryingById fun h => by rw [Row.id_ofHost_eq, decide_eq_true_eq]

theorem Keeps.findByCode (hk : db.Keeps hosts) (code : String) :
    db.findByCode code = .ok (hosts.find? fun h => h.code = code) :=
  hk.queryOne .queryingByCode fun h => by rw [Row.code_ofHost_eq, decide_eq_true_eq]

theorem any_ofHost {p : Row → Bool} {q : Host → Bool} (h : ∀ host, p (.ofHost host) = q host)
    (hosts : List Host) : (hosts.map Row.ofHost).any p = hosts.any q := by
  rw [List.any_map]
  exact List.any_congr rfl h

/-- The host with a new time of refresh, if it is the one with the id. -/
def refreshed (id : String) (moment : Instant) (h : Host) : Host :=
  if h.id = id then { h with updatedAt := moment } else h

@[simp] theorem id_refreshed (id : String) (moment : Instant) (h : Host) :
    (refreshed id moment h).id = h.id := by
  unfold refreshed
  split <;> rfl

def refresh (db : Database) (hosts : List Host) (id : String) (moment : Instant) : Database :=
  { db with hosts := some ((hosts.map (refreshed id moment)).map Row.ofHost) }

section

variable (hrows : db.hosts = some (hosts.map Row.ofHost))

include hrows

/-- An insert is refused exactly if a host has the id or the code. -/
theorem insert_of_hosts (candidate : Candidate) (id : String) :
    db.insert candidate id =
      if hosts.any fun h => h.id = id || h.code = candidate.code then (.ok none, db)
      else (.ok (some (candidate.host id)),
        { db with hosts := some ((hosts ++ [candidate.host id]).map Row.ofHost) }) := by
  have hany : ((hosts.map Row.ofHost).any fun r => r.id = .text id || r.code = .text candidate.code)
      = hosts.any fun h => h.id = id || h.code = candidate.code :=
    any_ofHost (fun h => by simp only [Row.id_ofHost_eq, Row.code_ofHost_eq]) hosts
  simp only [Database.insert, rows_of_hosts hrows, hany, List.map_append, List.map_singleton]

theorem erase_of_hosts (id : String) :
    (db.erase id).hosts = some ((hosts.filter fun h => h.id ≠ id).map Row.ofHost) := by
  have hcomp : ((fun r : Row => decide (r.id ≠ .text id)) ∘ Row.ofHost)
      = fun h : Host => decide (h.id ≠ id) := by
    funext h
    simp only [Function.comp_apply, ne_eq, Row.id_ofHost_eq]
  simp only [Database.erase, hrows, Option.map_some, List.filter_map, hcomp]

theorem touch_of_hosts (id : String) (moment : Instant) :
    db.touch id moment =
      if hosts.any fun h => h.id = id then
        ((db.refresh hosts id moment).findById id, db.refresh hosts id moment)
      else (.ok none, db) := by
  have hany : ((hosts.map Row.ofHost).any fun r => r.id = .text id)
      = hosts.any fun h => h.id = id :=
    any_ofHost (fun h => by simp only [Row.id_ofHost_eq]) hosts
  have hstamped : (hosts.map Row.ofHost).map (fun r : Row => if r.id = .text id then
        { r with updatedAt := .text (Stamp.full moment) } else r)
      = (hosts.map (refreshed id moment)).map Row.ofHost := by
    rw [List.map_map, List.map_map]
    refine List.map_congr_left fun h _ => ?_
    simp only [Function.comp_apply, Row.id_ofHost_eq, refreshed]
    split <;> rfl
  simp only [Database.touch, rows_of_hosts hrows, hany, hstamped, refresh]

end

theorem Keeps.append (hk : db.Keeps hosts) {host : Host} (hs : host.Storable) :
    Keeps { db with hosts := some ((hosts ++ [host]).map Row.ofHost) } (hosts ++ [host]) where
  rows := rfl
  storable := by
    intro h hh
    rcases List.mem_append.mp hh with hh | hh
    · exact hk.storable h hh
    · exact List.mem_singleton.mp hh ▸ hs

theorem Keeps.erase (hk : db.Keeps hosts) (id : String) :
    (db.erase id).Keeps (hosts.filter fun h => h.id ≠ id) where
  rows := erase_of_hosts hk.rows id
  storable h hh := hk.storable h (List.mem_filter.mp hh).1

theorem Keeps.refresh (hk : db.Keeps hosts) (id : String) {moment : Instant}
    (hm : moment.Storable) :
    (db.refresh hosts id moment).Keeps (hosts.map (refreshed id moment)) where
  rows := rfl
  storable := by
    intro h hh
    obtain ⟨old, hold, rfl⟩ := List.mem_map.mp hh
    have hs := hk.storable old hold
    unfold refreshed
    split
    · exact ⟨hs.1, hm⟩
    · exact hs

theorem hostsOf_map {hosts : List Host} (hs : ∀ h ∈ hosts, h.Storable) :
    hostsOf (hosts.map Row.ofHost) = .ok hosts := by
  induction hosts with
  | nil => rfl
  | cons h hosts ih =>
    rw [List.map_cons, hostsOf, Row.host_ofHost (hs h (.head _)), ok_bind,
      ih fun h hh => hs h (.tail _ hh)]
    rfl

/-- The listing of the rows is the sorted list of the hosts. -/
theorem Keeps.list (hk : db.Keeps hosts) : db.list = .ok (hosts.mergeSort Host.le) := by
  have hsort : (hosts.map Row.ofHost).mergeSort Row.le
      = (hosts.mergeSort Host.le).map Row.ofHost :=
    (List.map_mergeSort fun a ha b hb =>
      (Row.le_ofHost (hk.storable a ha) (hk.storable b hb)).symm).symm
  have hread : hostsOf ((hosts.mergeSort Host.le).map Row.ofHost)
      = .ok (hosts.mergeSort Host.le) :=
    hostsOf_map fun h hh => hk.storable h (List.mem_mergeSort.mp hh)
  rw [Database.list, rows_of_hosts hk.rows, ok_bind]
  simp only [hsort, hread]
  rfl

end Database
end Rendezvous
