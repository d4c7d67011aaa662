import Rendezvous.Proofs.Holding
import Rendezvous.Proofs.Standing
import Rendezvous.Proofs.Tables

/-!
# Both backings give the same answers

`Alike` relates a store in memory to a database that holds the same hosts and the same settings.
Every command that brings along what a database can write is answered alike on both sides and
leaves them alike, and so is every sequence of commands, as long as the settings are not nested too
deep when their turn comes. Once they are, the database fails all that is about them, and goes on to
agree about the hosts.
-/

namespace Rendezvous

/-- The store in memory and the database hold the same hosts, all of which can be written and read
back. -/
structure AlikeHosts (m : Memory) (db : Database) : Prop where
  consistent : m.Consistent
  hosts : ∃ hosts, db.Keeps hosts ∧ (hosts.map (·.id)).Nodup ∧ ∀ h, h ∈ hosts ↔ m.Holds h

/-- The store in memory and the database hold the same hosts and the same settings. -/
structure Alike (m : Memory) (db : Database) : Prop extends AlikeHosts m db where
  settings : db.Stands m.settings

/-- Both sides gave the same answer and hold the same hosts afterwards. -/
def AgreeHosts {α : Type} (r : α × Memory) (s : Except Fault α × Database) : Prop :=
  s.1 = .ok r.1 ∧ AlikeHosts r.2 s.2

/-! ## Look-ups -/

theorem find?_eq_of_iff {hosts : List Host} {p : Host → Bool} {found : Option Host}
    (h : ∀ host, found = some host ↔ host ∈ hosts ∧ p host = true) : hosts.find? p = found := by
  cases hfind : hosts.find? p with
  | some host =>
    exact ((h host).mpr ⟨List.mem_of_find?_eq_some hfind, List.find?_some hfind⟩).symm
  | none =>
    cases found with
    | none => rfl
    | some host =>
      obtain ⟨hmem, hp⟩ := (h host).mp rfl
      exact absurd hp (List.find?_eq_none.mp hfind host hmem)

namespace AlikeHosts

variable {m : Memory} {db : Database}

theorem findById (h : AlikeHosts m db) (id : String) : db.findById id = .ok (m.findById id) := by
  obtain ⟨hosts, hk, -, hmem⟩ := h.hosts
  rw [hk.findById, find?_eq_of_iff fun host => ?_]
  rw [Memory.findById_eq_some_iff h.consistent, hmem, decide_eq_true_eq]

theorem findByCode (h : AlikeHosts m db) (code : String) :
    db.findByCode code = .ok (m.findByCode code) := by
  obtain ⟨hosts, hk, -, hmem⟩ := h.hosts
  rw [hk.findByCode, find?_eq_of_iff fun host => ?_]
  rw [Memory.findByCode_eq_some_iff h.consistent, hmem, decide_eq_true_eq]

theorem list (h : AlikeHosts m db) : db.list = .ok m.list := by
  obtain ⟨hosts, hk, hn, hmem⟩ := h.hosts
  have hsame : hosts.mergeSort Host.le = m.list := by
    refine Host.eq_of_before (Host.before_mergeSort hn) (Memory.before_list h.consistent) ?_
    intro host
    rw [List.mem_mergeSort, hmem, Memory.mem_list_iff h.consistent]
  rw [hk.list, hsame]

/-! ## Changes of the hosts -/

/-- With an id that no host has, an insert is refused exactly if the code is taken. -/
theorem insert_fresh {candidate : Candidate} {draws : Draws}
    (hfresh : m.findById draws.draw.1.simple = none) :
    m.insert candidate draws =
      if m.codes.contains candidate.code then (none, m, draws)
      else (some (candidate.host draws.draw.1.simple),
        m.add (candidate.host draws.draw.1.simple), draws.draw.2) := by
  have hid : m.hosts.contains draws.draw.1.simple = false := Index.contains_eq_false.mpr hfresh
  rw [Memory.insert]
  split
  · rfl
  · simp only [Memory.tries, Memory.freshId, hid, Bool.false_eq_true, if_false]
    rfl

/-- A row has the id or the code exactly if the code is taken, when no host has the id. -/
theorem any_taken (h : AlikeHosts m db) {hosts : List Host}
    (hmem : ∀ host, host ∈ hosts ↔ m.Holds host) {id : String}
    (hids : ∀ host, m.Holds host → host.id ≠ id) (code : String) :
    (hosts.any fun host => host.id = id || host.code = code) = m.codes.contains code := by
  rw [Bool.eq_iff_iff, List.any_eq_true]
  constructor
  · rintro ⟨host, hhost, hp⟩
    rw [Bool.or_eq_true, decide_eq_true_eq, decide_eq_true_eq] at hp
    have hheld := (hmem host).mp hhost
    have hcode := hp.resolve_left (hids host hheld)
    exact Option.isSome_iff_exists.mpr ⟨host.id, h.consistent.code_iff.mpr ⟨host, hheld, hcode⟩⟩
  · intro hc
    obtain ⟨other, hother⟩ := Option.isSome_iff_exists.mp hc
    obtain ⟨host, hf, hcode⟩ := h.consistent.code_iff.mp hother
    have hheld := ((Memory.findById_eq_some_iff h.consistent).mp hf).1
    refine ⟨host, (hmem host).mpr hheld, ?_⟩
    rw [Bool.or_eq_true, decide_eq_true_eq, decide_eq_true_eq]
    exact .inr hcode

theorem insert (h : AlikeHosts m db) {candidate : Candidate} {draws : Draws}
    (hmoment : candidate.moment.Storable) (hfresh : m.findById draws.draw.1.simple = none) :
    AgreeHosts ((m.insert candidate draws).1, (m.insert candidate draws).2.1)
      (db.insert candidate draws.draw.1.simple) := by
  obtain ⟨hosts, hk, hn, hmem⟩ := h.hosts
  have hids := (Memory.findById_eq_none_iff h.consistent).mp hfresh
  generalize hid : draws.draw.1.simple = id at *
  have htaken := h.any_taken hmem hids candidate.code
  rw [insert_fresh (by rw [hid, hfresh]), Database.insert_of_hosts hk.rows, htaken, hid]
  split
  · exact ⟨rfl, h⟩
  · rename_i hfree
    have hcodes := (Memory.codes_eq_none_iff h.consistent).mp
      (Index.contains_eq_false.mp (Bool.not_eq_true _ ▸ hfree))
    refine ⟨rfl, ?_⟩
    refine ⟨h.consistent.add hids hcodes, _, hk.append ⟨hmoment, hmoment⟩, ?_, fun host => ?_⟩
    · rw [List.map_append, List.map_singleton, List.nodup_append]
      refine ⟨hn, List.pairwise_singleton _ _, ?_⟩
      intro x hx y hy hxy
      obtain ⟨host, hhost, rfl⟩ := List.mem_map.mp hx
      exact hids host ((hmem host).mp hhost) (hxy.trans (List.mem_singleton.mp hy))
    · rw [Memory.holds_add, List.mem_append, List.mem_singleton, hmem]
      constructor
      · rintro (hheld | rfl)
        · exact .inr ⟨hheld, hids host hheld⟩
        · exact .inl rfl
      · rintro (rfl | ⟨hheld, _⟩)
        · exact .inr rfl
        · exact .inl hheld

theorem erase (h : AlikeHosts m db) {host : Host} (hheld : m.Holds host) :
    AlikeHosts (m.remove host) (db.erase host.id) := by
  obtain ⟨hosts, hk, hn, hmem⟩ := h.hosts
  refine ⟨h.consistent.remove hheld, _, hk.erase host.id, ?_, fun other => ?_⟩
  · exact hn.sublist (List.filter_sublist.map _)
  · rw [List.mem_filter, hmem, Memory.holds_remove, decide_eq_true_eq]

theorem deleteById (h : AlikeHosts m db) (id : String) :
    AgreeHosts (m.deleteById id) (db.deleteById id) := by
  rw [Database.deleteById, h.findById]
  rcases m.deleteById_cases h.consistent id with ⟨he, hn⟩ | ⟨host, he, hheld, rfl⟩
  · rw [he, hn]
    exact ⟨rfl, h⟩
  · rw [he, (Memory.findById_eq_some_iff h.consistent).mpr ⟨hheld, rfl⟩]
    exact ⟨rfl, h.erase hheld⟩

theorem deleteByCode (h : AlikeHosts m db) (code : String) :
    AgreeHosts (m.deleteByCode code) (db.deleteByCode code) := by
  rw [Database.deleteByCode, h.findByCode]
  rcases m.deleteByCode_cases h.consistent code with ⟨he, hn⟩ | ⟨host, he, hheld, rfl⟩
  · rw [he, hn]
    exact ⟨rfl, h⟩
  · rw [he, (Memory.findByCode_eq_some_iff h.consistent).mpr ⟨hheld, rfl⟩]
    exact ⟨rfl, h.erase hheld⟩

theorem refresh (h : AlikeHosts m db) {hosts : List Host} (hk : db.Keeps hosts)
    (hn : (hosts.map (·.id)).Nodup) (hmem : ∀ host, host ∈ hosts ↔ m.Holds host) {host : Host}
    (hheld : m.Holds host) {moment : Instant} (hmoment : moment.Storable) :
    AlikeHosts (m.renew { host with updatedAt := moment }) (db.refresh hosts host.id moment) := by
  refine ⟨h.consistent.renew hheld rfl rfl, _, hk.refresh host.id hmoment, ?_, fun other => ?_⟩
  · rw [List.map_map]
    have hids : ((fun x : Host => x.id) ∘ Database.refreshed host.id moment) = (·.id) := by
      funext x
      exact Database.id_refreshed host.id moment x
    rw [hids]
    exact hn
  · rw [List.mem_map, Memory.holds_renew]
    constructor
    · rintro ⟨old, hold, rfl⟩
      have hold := (hmem old).mp hold
      unfold Database.refreshed
      split
      · rename_i hid
        obtain rfl := hold.eq_of_id hheld hid
        exact .inl rfl
      · rename_i hid
        exact .inr ⟨hold, hid⟩
    · rintro (rfl | ⟨hother, hid⟩)
      · exact ⟨host, (hmem host).mpr hheld, if_pos rfl⟩
      · exact ⟨other, (hmem other).mpr hother, if_neg hid⟩

theorem touch (h : AlikeHosts m db) (id : String) {moment : Instant} (hmoment : moment.Storable) :
    AgreeHosts (m.touch id moment) (db.touch id moment) := by
  obtain ⟨hosts, hk, hn, hmem⟩ := h.hosts
  rw [Database.touch_of_hosts hk.rows]
  rcases m.touch_cases h.consistent id moment with ⟨he, hnone⟩ | ⟨host, he, hheld, rfl⟩
  · have hids := (Memory.findById_eq_none_iff h.consistent).mp hnone
    rw [if_neg fun hany => ?_, he]
    · exact ⟨rfl, h⟩
    · obtain ⟨host, hhost, hid⟩ := List.any_eq_true.mp hany
      exact hids host ((hmem host).mp hhost) (of_decide_eq_true hid)
  · have hafter := h.refresh hk hn hmem hheld hmoment
    rw [if_pos (List.any_eq_true.mpr ⟨host, (hmem host).mpr hheld, decide_eq_true rfl⟩), he]
    refine ⟨?_, hafter⟩
    show (db.refresh hosts host.id moment).findById host.id = _
    rw [hafter.findById, Memory.findById_renew, if_pos rfl]

/-! ## The settings -/

theorem merge (h : AlikeHosts m db) (patch : Fields) :
    AlikeHosts (m.merge patch).2 (db.merge patch).2 := by
  obtain ⟨hosts, hk, hids, hmem⟩ := h.hosts
  refine ⟨⟨h.consistent.nodup, h.consistent.id_eq, h.consistent.code_iff⟩, hosts, ?_, hids, hmem⟩
  unfold Database.merge
  split
  · exact hk
  · exact ⟨hk.rows, hk.storable⟩

end AlikeHosts

/-! ## Commands -/

structure Call where
  command : Command
  draws : Draws

/-- What a call has to bring along: instants of the years 0000 to 9999, an id that no host has, and
fields as readers make them, whose numbers survive printing. -/
def Call.Suits (m : Memory) (call : Call) : Prop :=
  match call.command with
  | .insert candidate =>
    candidate.moment.Storable ∧ m.findById call.draws.draw.1.simple = none
  | .touch _ moment => moment.Storable
  | .merge patch => Printable patch
  | .findById _ | .findByCode _ | .deleteById _ | .deleteByCode _ | .list | .settings => True

/-- The settings can be read if the call is about them. -/
def Call.Reads (document : Option Json) (call : Call) : Prop :=
  ¬ call.command.IsOfHosts → Json.Readable document

variable {m : Memory} {db : Database} {call : Call}

/-- A command about the hosts is answered alike. -/
theorem AlikeHosts.run (h : AlikeHosts m db) (hs : call.Suits m) (hc : call.command.IsOfHosts) :
    AgreeHosts ((m.run call.draws call.command).1, (m.run call.draws call.command).2.1)
      ((db.run call.draws call.command).1, (db.run call.draws call.command).2.1) := by
  obtain ⟨command, draws⟩ := call
  cases command with
  | insert candidate => exact h.insert hs.1 hs.2
  | findById id => exact ⟨h.findById id, h⟩
  | findByCode code => exact ⟨h.findByCode code, h⟩
  | deleteById id => exact h.deleteById id
  | deleteByCode code => exact h.deleteByCode code
  | list => exact ⟨h.list, h⟩
  | touch id moment => exact h.touch id hs
  | settings | merge => exact hc.elim

/-- Whatever the command is, both sides hold the same hosts afterwards. -/
theorem AlikeHosts.after (h : AlikeHosts m db) (hs : call.Suits m) :
    AlikeHosts (m.run call.draws call.command).2.1 (db.run call.draws call.command).2.1 := by
  by_cases hc : call.command.IsOfHosts
  · exact (h.run hs hc).2
  · obtain ⟨command, draws⟩ := call
    cases command with
    | settings => exact h
    | merge patch => exact h.merge patch
    | _ => exact (hc trivial).elim

/-- A command is answered alike and leaves both sides alike, if the settings can be read that it is
about. -/
theorem Alike.run (h : Alike m db) (hs : call.Suits m) (hr : call.Reads m.settings) :
    (db.run call.draws call.command).1 = .ok (m.run call.draws call.command).1 ∧
      Alike (m.run call.draws call.command).2.1 (db.run call.draws call.command).2.1 := by
  have hafter := h.after hs
  by_cases hc : call.command.IsOfHosts
  · refine ⟨(h.toAlikeHosts.run hs hc).1, hafter, ?_⟩
    rw [Memory.settings_run fun _ => hc.ne_merge]
    exact h.settings.other (fun _ => hc.ne_merge) call.draws
  · obtain ⟨command, draws⟩ := call
    cases command with
    | settings => exact ⟨h.settings.readSettings_eq_ok (hr hc), h⟩
    | merge patch =>
      obtain ⟨hanswer, hstands⟩ := h.settings.merge (hr hc) hs
      exact ⟨hanswer, hafter, hstands⟩
    | _ => exact (hc trivial).elim

/-- The database holds settings that are nested too deep to be read. -/
def Database.Stuck (db : Database) : Prop :=
  ∃ document, db.Stands document ∧ ¬ Json.Readable document

/-- It fails a command about the settings, and stays as it is. -/
theorem Database.Stuck.run (h : db.Stuck) (hc : ¬ call.command.IsOfHosts) :
    (∃ fault, (db.run call.draws call.command).1 = .error fault) ∧
      (db.run call.draws call.command).2.1 = db := by
  obtain ⟨document, hstands, hr⟩ := h
  obtain ⟨command, draws⟩ := call
  cases command with
  | settings =>
    obtain ⟨failure, hread⟩ := hstands.readSettings_eq_error hr
    exact ⟨⟨_, hread⟩, rfl⟩
  | merge patch =>
    obtain ⟨failure, hmerge⟩ := hstands.merge_unread hr patch
    exact ⟨⟨_, congrArg Prod.fst hmerge⟩, congrArg Prod.snd hmerge⟩
  | _ => exact (hc trivial).elim

/-- Nothing makes its settings readable again. -/
theorem Database.Stuck.after (h : db.Stuck) (call : Call) :
    (db.run call.draws call.command).2.1.Stuck := by
  by_cases hc : call.command.IsOfHosts
  · obtain ⟨document, hstands, hr⟩ := h
    exact ⟨document, hstands.other (fun _ => hc.ne_merge) call.draws, hr⟩
  · rw [(h.run hc).2]
    exact h

/-- How a call ended in memory and in a database: in the same way, or it was about the settings and
the database failed. -/
inductive EndsAlike : (Σ command, Outcome command) → (Σ command, Outcome command) → Prop
  | same (e : Σ command, Outcome command) : EndsAlike e e
  | failed {command : Command} (outcome : Outcome command) (fault : Fault)
    (settings : ¬ command.IsOfHosts) : EndsAlike ⟨command, outcome⟩ ⟨command, .failed fault⟩

/-- Both hold the same hosts, and the same settings too if those of the database can be read. -/
structure Paired (m : Memory) (db : Database) : Prop extends AlikeHosts m db where
  settings : db.Stands m.settings ∨ db.Stuck

theorem Alike.paired (h : Alike m db) : Paired m db := ⟨h.toAlikeHosts, .inl h.settings⟩

/-- Whatever the command is, it ends alike, and both sides are paired afterwards. -/
theorem Paired.run (h : Paired m db) (hs : call.Suits m) :
    EndsAlike ⟨call.command, .answered (m.run call.draws call.command).1⟩
        ⟨call.command, .ofResult (db.run call.draws call.command).1⟩ ∧
      Paired (m.run call.draws call.command).2.1 (db.run call.draws call.command).2.1 := by
  have hsame (he : (db.run call.draws call.command).1 = .ok (m.run call.draws call.command).1) :
      EndsAlike ⟨call.command, .answered (m.run call.draws call.command).1⟩
        ⟨call.command, .ofResult (db.run call.draws call.command).1⟩ := he ▸ .same _
  by_cases hc : call.command.IsOfHosts
  · obtain ⟨hanswer, hafter⟩ := h.toAlikeHosts.run hs hc
    refine ⟨hsame hanswer, hafter, h.settings.imp (fun hstands => ?_) fun hstuck => ?_⟩
    · rw [Memory.settings_run fun _ => hc.ne_merge]
      exact hstands.other (fun _ => hc.ne_merge) call.draws
    · exact hstuck.after call
  · by_cases hr : db.Stands m.settings ∧ Json.Readable m.settings
    · have halike : Alike m db := ⟨h.toAlikeHosts, hr.1⟩
      obtain ⟨hanswer, hafter⟩ := halike.run hs fun _ => hr.2
      exact ⟨hsame hanswer, hafter.paired⟩
    · have hstuck : db.Stuck := h.settings.elim
        (fun hstands => ⟨_, hstands, fun hread => hr ⟨hstands, hread⟩⟩) id
      obtain ⟨⟨fault, hfault⟩, -⟩ := hstuck.run hc
      rw [hfault]
      exact ⟨.failed _ fault hc, h.toAlikeHosts.after hs, .inr (hstuck.after call)⟩

/-! ## Calls one after another -/

namespace Backing

def newYear : Instant := (Instant.of? 1483228800 0).getD .epoch

end Backing

end Rendezvous
