import Mathlib.Data.List.Perm.Subperm
import Rendezvous.Proofs.Identifiers
import Rendezvous.Proofs.Keys
import Rendezvous.Proofs.Readback

/-!
# Inserts and conflicts

An insert is refused exactly if it would give a key to a second host. In memory only the code can
be in conflict: ids are drawn until one is free, and `Memory.Settles` is that loop without a bound.
`Memory.exists_settles` ends it while the draws differ, since there are more of them than hosts. A
database draws one id and refuses a host whose id or code is taken. `insert_conflicts` says both,
and that no insert changes what was stored before.
-/

namespace Rendezvous

/-! ## Draws -/

namespace Draws

theorem length_next (d : Draws) (count : Nat) : (d.next count).length = count := by
  induction count generalizing d with
  | zero => rfl
  | succ count ih => rw [next, List.length_cons, ih]

theorem nodup_ids {d : Draws} {count : Nat} (h : (d.next count).Nodup) :
    ((d.next count).map Uuid.simple).Nodup :=
  h.map fun _ _ => Uuid.simple_injective

end Draws

/-! ## In memory -/

namespace Memory

/-- Ids are drawn until no host has the last: how many, which one it is, and what draws are left. -/
inductive Settles (hosts : Index Host) : Draws → Nat → String → Draws → Prop
  | free {draws : Draws} (h : hosts.get? draws.draw.1.simple = none) :
    Settles hosts draws 1 draws.draw.1.simple draws.draw.2
  | taken {draws rest : Draws} {count : Nat} {id : String}
    (h : hosts.get? draws.draw.1.simple ≠ none) (more : Settles hosts draws.draw.2 count id rest) :
    Settles hosts draws (count + 1) id rest

section

variable {hosts : Index Host} {draws rest : Draws} {count : Nat} {id : String}

theorem Settles.get? (h : Settles hosts draws count id rest) : hosts.get? id = none := by
  induction h with
  | free h => exact h
  | taken _ _ ih => exact ih

theorem Settles.skip (h : Settles hosts draws count id rest) : rest = draws.skip count := by
  induction h with
  | free _ => rfl
  | taken _ _ ih => exact ih

/-- A bound on the tries decides nothing once the loop comes to its end within it. -/
theorem Settles.freshId (h : Settles hosts draws count id rest) {tries : Nat}
    (ht : count ≤ tries) : freshId hosts tries draws = (some id, rest) := by
  induction h generalizing tries with
  | free h =>
    obtain ⟨tries, rfl⟩ : ∃ t, tries = t + 1 := ⟨tries - 1, by omega⟩
    have hfree := Index.contains_eq_false.mpr h
    simp only [Memory.freshId, hfree, Bool.false_eq_true, if_false]
  | @taken draws rest count id h more ih =>
    obtain ⟨tries, rfl⟩ : ∃ t, tries = t + 1 := ⟨tries - 1, by omega⟩
    have htaken : hosts.contains draws.draw.1.simple = true :=
      Bool.not_eq_false _ |>.mp fun hfalse => h (Index.contains_eq_false.mp hfalse)
    simp only [Memory.freshId, htaken, if_true]
    exact ih (by omega)

/-- The loop ends as soon as a draw is free. -/
theorem settles_of_free {budget : Nat}
    (h : ∃ uuid ∈ draws.next budget, hosts.get? uuid.simple = none) :
    ∃ count id rest, count ≤ budget ∧ Settles hosts draws count id rest := by
  induction budget generalizing draws with
  | zero =>
    obtain ⟨uuid, hmem, -⟩ := h
    cases hmem
  | succ budget ih =>
    by_cases hfirst : hosts.get? draws.draw.1.simple = none
    · exact ⟨1, _, _, by omega, .free hfirst⟩
    · obtain ⟨uuid, hmem, hfree⟩ := h
      rcases List.mem_cons.mp hmem with rfl | hmem
      · exact absurd hfree hfirst
      · obtain ⟨count, id, rest, hle, hmore⟩ := ih ⟨uuid, hmem, hfree⟩
        exact ⟨count + 1, id, rest, by omega, .taken hfirst hmore⟩

/-- Of more different draws than there are hosts, one is free. -/
theorem exists_free {budget : Nat} (hbudget : hosts.length < budget)
    (hdistinct : (draws.next budget).Nodup) :
    ∃ uuid ∈ draws.next budget, hosts.get? uuid.simple = none := by
  by_contra hnone
  have hsub : (draws.next budget).map Uuid.simple ⊆ hosts.keys := by
    intro id hid
    obtain ⟨uuid, hmem, rfl⟩ := List.mem_map.mp hid
    cases hget : hosts.get? uuid.simple with
    | none => exact absurd ⟨uuid, hmem, hget⟩ hnone
    | some host => exact List.mem_map_of_mem (f := (·.1)) (Index.mem_of_get? hget)
  have hle := ((Draws.nodup_ids hdistinct).subperm hsub).length_le
  simp only [Index.keys, List.length_map, Draws.length_next] at hle
  omega

theorem exists_settles (hdistinct : (draws.next (hosts.length + 1)).Nodup) :
    ∃ count id rest, count ≤ hosts.length + 1 ∧ Settles hosts draws count id rest :=
  settles_of_free (exists_free (Nat.lt_succ_self _) hdistinct)

end

/-- The store has the host under both keys, and all other keys lead where they did. -/
structure With (m : Memory) (host : Host) (m' : Memory) : Prop where
  newId : ∀ h, m.Holds h → h.id ≠ host.id
  id : m'.findById host.id = some host
  code : m'.findByCode host.code = some host
  otherId : ∀ id, id ≠ host.id → m'.findById id = m.findById id
  otherCode : ∀ code, code ≠ host.code → m'.findByCode code = m.findByCode code
  holds_iff : ∀ h, m'.Holds h ↔ h = host ∨ m.Holds h
  settings : m'.settings = m.settings

/-- What an insert comes to in memory. -/
structure Inserts (m : Memory) (candidate : Candidate) (draws : Draws) : Prop where
  /-- A code that is held is refused: nothing is drawn, and nothing changes. -/
  held : (∃ h, m.Holds h ∧ h.code = candidate.code) →
    m.insert candidate draws = (none, m, draws)
  /-- For a free code ids are drawn while they are taken, of which there is an end when the draws
  differ; then there is one host more. -/
  free : (∀ h, m.Holds h → h.code ≠ candidate.code) → (draws.next (m.list.length + 1)).Nodup →
    ∃ count id m', count ≤ m.list.length + 1 ∧ Settles m.hosts draws count id (draws.skip count) ∧
      m.insert candidate draws = (some (candidate.host id), m', draws.skip count) ∧
      m.With (candidate.host id) m'
  refused_iff : (draws.next (m.list.length + 1)).Nodup →
    ((m.insert candidate draws).1 = none ↔ ∃ h, m.Holds h ∧ h.code = candidate.code)
  /-- Whatever is drawn, the hosts that were stored are stored, under the keys they had. -/
  kept : ∀ h, m.Holds h → (m.insert candidate draws).2.1.findById h.id = some h ∧
    (m.insert candidate draws).2.1.findByCode h.code = some h

section

variable {m : Memory} (hm : m.Consistent)

include hm

theorem with_add (host : Host) (hid : ∀ h, m.Holds h → h.id ≠ host.id)
    (hcode : ∀ h, m.Holds h → h.code ≠ host.code) : m.With host (m.add host) := by
  have hadded : (m.add host).Consistent := hm.add hid hcode
  have hholds : ∀ h, (m.add host).Holds h ↔ h = host ∨ m.Holds h := by
    intro h
    rw [holds_add]
    exact or_congr_right ⟨And.left, fun hh => ⟨hh, hid h hh⟩⟩
  have hself : (m.add host).Holds host := (hholds host).mpr (.inl rfl)
  refine ⟨hid, hself, (findByCode_eq_some_iff hadded).mpr ⟨hself, rfl⟩, ?_, ?_, hholds, rfl⟩
  · intro id hne
    rw [findById_add, if_neg hne]
  · intro code hne
    apply Option.ext
    intro h
    rw [findByCode_eq_some_iff hadded, findByCode_eq_some_iff hm, hholds]
    constructor
    · rintro ⟨rfl | hh, hcd⟩
      · exact absurd hcd.symm hne
      · exact ⟨hh, hcd⟩
    · rintro ⟨hh, hcd⟩
      exact ⟨.inr hh, hcd⟩

theorem insert_held (candidate : Candidate) (draws : Draws)
    (h : ∃ h, m.Holds h ∧ h.code = candidate.code) :
    m.insert candidate draws = (none, m, draws) := by
  have hcontains : m.codes.contains candidate.code = true := by
    apply Bool.not_eq_false _ |>.mp
    intro hfalse
    obtain ⟨host, hhost, hcode⟩ := h
    exact (codes_eq_none_iff hm).mp (Index.contains_eq_false.mp hfalse) host hhost hcode
  unfold insert
  rw [if_pos hcontains]

theorem insert_free {candidate : Candidate} {draws : Draws}
    (hfree : ∀ h, m.Holds h → h.code ≠ candidate.code)
    (hdistinct : (draws.next (m.list.length + 1)).Nodup) :
    ∃ count id, count ≤ m.list.length + 1 ∧ Settles m.hosts draws count id (draws.skip count) ∧
      m.insert candidate draws
        = (some (candidate.host id), m.add (candidate.host id), draws.skip count) := by
  have hlength : m.list.length = m.hosts.length := by
    rw [list, List.length_mergeSort, Index.values, List.length_map]
  rw [hlength] at hdistinct ⊢
  obtain ⟨count, id, rest, hcount, hsettles⟩ := exists_settles hdistinct
  obtain rfl := hsettles.skip
  refine ⟨count, id, hcount, hsettles, ?_⟩
  have hcontains : m.codes.contains candidate.code = false :=
    Index.contains_eq_false.mpr ((codes_eq_none_iff hm).mpr hfree)
  have htries : count ≤ m.tries draws := by
    unfold tries
    omega
  unfold insert
  rw [hcontains, hsettles.freshId htries]
  rfl

theorem Consistent.inserts (candidate : Candidate) (draws : Draws) :
    m.Inserts candidate draws := by
  have hheld := insert_held hm candidate draws
  constructor
  case held => exact hheld
  case free =>
    intro hfree hdistinct
    obtain ⟨count, id, hcount, hsettles, hinsert⟩ := insert_free hm hfree hdistinct
    have hid : ∀ h, m.Holds h → h.id ≠ id := (findById_eq_none_iff hm).mp hsettles.get?
    exact ⟨count, id, _, hcount, hsettles, hinsert, with_add hm _ hid hfree⟩
  case refused_iff =>
    intro hdistinct
    constructor
    · intro hnone
      by_contra hfree
      have hcodes : ∀ h, m.Holds h → h.code ≠ candidate.code :=
        fun h hh hcode => hfree ⟨h, hh, hcode⟩
      obtain ⟨count, id, -, -, hinsert⟩ := insert_free hm hcodes hdistinct
      rw [hinsert] at hnone
      cases hnone
    · intro h
      rw [hheld h]
  case kept =>
    intro h hh
    rcases m.insert_cases candidate draws with ⟨rest, he⟩ | ⟨id, rest, he, hid, hcode⟩
    · rw [he]
      exact ⟨hh, (findByCode_eq_some_iff hm).mpr ⟨hh, rfl⟩⟩
    · rw [he]
      have hids := (findById_eq_none_iff hm).mp hid
      have hcodes := (codes_eq_none_iff hm).mp hcode
      have hwith := with_add hm (candidate.host id) hids hcodes
      refine ⟨?_, ?_⟩
      · rw [hwith.otherId _ (hids h hh)]
        exact hh
      · rw [hwith.otherCode _ (hcodes h hh)]
        exact (findByCode_eq_some_iff hm).mpr ⟨hh, rfl⟩

end

end Memory

/-! ## In a database -/

namespace Database

structure Inserts (db : Database) (hosts : List Host) (candidate : Candidate) (draws : Draws) :
    Prop where
  /-- An insert is refused for the id that is drawn, or for the code; then nothing changes. -/
  refused_iff : (db.run draws (.insert candidate)).1 = .ok none ↔
    ∃ h ∈ hosts, h.id = draws.draw.1.simple ∨ h.code = candidate.code
  refused : (db.run draws (.insert candidate)).1 = .ok none →
    (db.run draws (.insert candidate)).2 = (db, draws.skip 1)
  /-- Otherwise there is one row more, behind all others, which are as they were. -/
  added : (∀ h ∈ hosts, h.id ≠ draws.draw.1.simple ∧ h.code ≠ candidate.code) →
    db.run draws (.insert candidate) =
      (.ok (some (candidate.host draws.draw.1.simple)),
        { db with hosts := some (hosts.map Row.ofHost ++
          [.ofHost (candidate.host draws.draw.1.simple)]) }, draws.skip 1)
  /-- Either way, no row is changed or lost. -/
  kept : ∃ rows, (db.run draws (.insert candidate)).2.1.hosts = some rows ∧
    hosts.map Row.ofHost <+: rows

theorem Records.inserts {db : Database} {hosts : List Host} (hr : db.Records hosts)
    (candidate : Candidate) (draws : Draws) : db.Inserts hosts candidate draws := by
  have hrun : db.run draws (.insert candidate)
      = ((db.insert candidate draws.draw.1.simple).1, (db.insert candidate draws.draw.1.simple).2,
          draws.skip 1) := rfl
  rw [insert_of_hosts hr.rows] at hrun
  by_cases htaken : ∃ h ∈ hosts, h.id = draws.draw.1.simple ∨ h.code = candidate.code
  · have hany :
        (hosts.any fun h => h.id = draws.draw.1.simple || h.code = candidate.code) = true := by
      simpa using htaken
    rw [if_pos hany] at hrun
    refine ⟨?_, fun _ => by rw [hrun], fun hfree => ?_, ?_⟩
    · rw [hrun]
      exact iff_of_true rfl htaken
    · obtain ⟨h, hh, hid | hcode⟩ := htaken
      · exact absurd hid (hfree h hh).1
      · exact absurd hcode (hfree h hh).2
    · rw [hrun]
      exact ⟨_, hr.rows, List.prefix_rfl⟩
  · have hany :
        ¬ (hosts.any fun h => h.id = draws.draw.1.simple || h.code = candidate.code) = true := by
      simpa using htaken
    rw [if_neg hany, List.map_append, List.map_singleton] at hrun
    refine ⟨?_, fun hnone => ?_, fun _ => hrun, ?_⟩
    · rw [hrun]
      exact iff_of_false nofun htaken
    · rw [hrun] at hnone
      cases hnone
    · rw [hrun]
      exact ⟨_, rfl, List.prefix_append _ _⟩

end Database

/-! ## Over either store -/

/-- In every store that commands lead to, in memory or in a database, an insert is refused exactly
if a key of its host is taken; else it adds the host, and changes no other. -/
theorem insert_conflicts {m : Memory} (hm : m.Reachable) {past : List Command} {db : Database}
    (hdb : Database.Leads {} past db) (candidate : Candidate) (draws : Draws) :
    m.Inserts candidate draws ∧
      ∃ hosts, db.Records hosts ∧ db.Inserts hosts candidate draws := by
  obtain ⟨hosts, hr, -⟩ := hdb.records Database.stocks_empty.records
  exact ⟨hm.consistent.inserts candidate draws, hosts, hr, hr.inserts candidate draws⟩

/-! ### Draws of ids that are taken -/

def newcomer : Candidate := ⟨"10.0.0.4", .last 65535, "NPQRST", .epoch⟩

def lateDatabase : Database := (Database.run {} {} (.insert Database.lateCandidate)).2.1

/-- In memory the third draw is free; the database refuses the host for the first one. -/
theorem insert_conflicts_redrawn : Memory.reused.Reachable ∧
    Database.Leads {} [.insert Database.lateCandidate] lateDatabase ∧
    (Memory.reused.Inserts newcomer {} ∧
      ∃ hosts, lateDatabase.Records hosts ∧ lateDatabase.Inserts hosts newcomer {}) ∧
    (Draws.next {} (Memory.reused.list.length + 1)).Nodup ∧
    (Memory.reused.insert newcomer {}).1
      = some (newcomer.host "00000000000040008000000000000003") ∧
    (Memory.reused.insert newcomer {}).2.2 = Draws.skip {} (Memory.reused.list.length + 1) ∧
    (lateDatabase.run {} (.insert newcomer)).1 = .ok none := by
  have hlate : Database.Leads {} [.insert Database.lateCandidate] lateDatabase :=
    Database.Leads.none.run {} (.insert Database.lateCandidate)
  have hlength : Memory.reused.list.length = 2 := by
    rw [Memory.list, List.length_mergeSort]
    rfl
  rw [hlength]
  exact ⟨Memory.reachable_reused, hlate, insert_conflicts Memory.reachable_reused hlate newcomer {},
    by decide, by decide, by decide, by rfl⟩

end Rendezvous
