import Mathlib.Data.List.Nodup
import Rendezvous.Proofs.Backings
import Rendezvous.Proofs.Changes
import Rendezvous.Proofs.History
import Rendezvous.Proofs.Standing

/-!
# The hosts of a backing

`Backing.Holds` is the set of hosts of a backing, in memory or in a database, and `Backing.Sound`
says that they can be read and that no two of them share a key. `Backing.Sound.serves` is what every
call comes to, told by the hosts alone: `Command.Fits` is the answer, `Change.Makes` what becomes of
the hosts. What comes of it holds of both backings.
-/

namespace Rendezvous

/-! ## Answers and changes, told by the hosts -/

/-- The instants that a command lays down can be read back. -/
def Command.Storable : Command → Prop
  | .insert candidate => candidate.moment.Storable
  | .touch _ moment => moment.Storable
  | _ => True

/-- The answer to a command is right for the hosts that are held. -/
def Command.Fits (held : Host → Prop) : (command : Command) → command.Answer → Prop
  | .insert candidate, host => ∀ h ∈ host, ∃ id, h = candidate.host id
  | .findById id, found | .deleteById id, found => ∀ h, found = some h ↔ held h ∧ h.id = id
  | .findByCode code, found | .deleteByCode code, found =>
    ∀ h, found = some h ↔ held h ∧ h.code = code
  | .list, hosts => hosts.Pairwise Host.Before ∧ ∀ h, h ∈ hosts ↔ held h
  | .touch id moment, found =>
    ∀ h, found = some h ↔ ∃ old, held old ∧ old.id = id ∧ h = { old with updatedAt := moment }
  | .settings, _ | .merge _, _ => True

/-- What a change makes of the hosts that are held. -/
inductive Change.Makes (held held' : Host → Prop) : Option Change → Prop
  | still (same : ∀ h, held' h ↔ held h) : Makes held held' none
  | added {host : Host} (newId : ∀ h, held h → h.id ≠ host.id)
    (freeCode : ∀ h, held h → h.code ≠ host.code) (after : ∀ h, held' h ↔ h = host ∨ held h) :
    Makes held held' (some (.added host))
  | removed {host : Host} (before : held host) (after : ∀ h, held' h ↔ held h ∧ h.id ≠ host.id) :
    Makes held held' (some (.removed host))
  | renewed {host : Host} (before : held host) (moment : Instant)
    (after : ∀ h, held' h ↔ h = { host with updatedAt := moment } ∨ held h ∧ h.id ≠ host.id) :
    Makes held held' (some (.renewed { host with updatedAt := moment }))
  | merged (document : Json) (same : ∀ h, held' h ↔ held h) :
    Makes held held' (some (.merged document))

/-! ## In memory -/

namespace Memory

variable {m m' : Memory}

theorem Takes.makes {change? : Option Change} (h : m.Takes change? m') :
    Change.Makes m.Holds m'.Holds change? := by
  cases h with
  | still => exact .still fun _ => .rfl
  | added newId freeCode =>
    refine .added newId freeCode fun h => holds_add.trans (or_congr_right ⟨And.left, fun hh => ?_⟩)
    exact ⟨hh, newId h hh⟩
  | removed held => exact .removed held fun _ => holds_remove
  | renewed held moment => exact .renewed held moment fun _ => holds_renew
  | merged patch => exact .merged _ fun _ => .rfl

variable (hm : m.Consistent)

include hm

theorem fits_run (draws : Draws) (command : Command) :
    command.Fits m.Holds (m.run draws command).1 := by
  cases command with
  | insert candidate =>
    intro h hmem
    simp only [Memory.run] at hmem
    rcases m.insert_cases candidate draws with ⟨rest, he⟩ | ⟨id, rest, he, _, _⟩
    · rw [he] at hmem
      cases hmem
    · rw [he] at hmem
      exact ⟨id, (Option.some.inj hmem).symm⟩
  | findById id => exact fun h => findById_eq_some_iff hm
  | findByCode code => exact fun h => findByCode_eq_some_iff hm
  | deleteById id =>
    intro h
    simp only [Memory.run]
    rw [← findById_eq_some_iff hm]
    rcases m.deleteById_cases hm id with ⟨he, hn⟩ | ⟨g, he, hg, hid⟩
    · rw [he, hn]
    · rw [he, (findById_eq_some_iff hm).mpr ⟨hg, hid⟩]
  | deleteByCode code =>
    intro h
    simp only [Memory.run]
    rw [← findByCode_eq_some_iff hm]
    rcases m.deleteByCode_cases hm code with ⟨he, hn⟩ | ⟨g, he, hg, hcode⟩
    · rw [he, hn]
    · rw [he, (findByCode_eq_some_iff hm).mpr ⟨hg, hcode⟩]
  | list => exact ⟨before_list hm, fun h => mem_list_iff hm⟩
  | touch id moment =>
    intro h
    simp only [Memory.run]
    rcases m.touch_cases hm id moment with ⟨he, hn⟩ | ⟨g, he, hg, rfl⟩
    · rw [he]
      refine ⟨fun hh => (by cases hh), ?_⟩
      rintro ⟨old, hold, hid, -⟩
      exact absurd hid ((findById_eq_none_iff hm).mp hn old hold)
    · rw [he]
      constructor
      · rintro ⟨⟩
        exact ⟨g, hg, rfl, rfl⟩
      · rintro ⟨old, hold, hid, rfl⟩
        rw [hold.eq_of_id hg hid]
  | settings => trivial
  | merge patch => trivial

end Memory

theorem Outcome.ofResult_eq_answered {command : Command} {result : Except Fault command.Answer}
    {answer : command.Answer} (h : Outcome.ofResult result = .answered answer) :
    result = .ok answer := by
  cases result with
  | error fault => cases h
  | ok other => rw [Outcome.answered.inj h]

/-! ## In a database -/

namespace Database

theorem id_of_insert {db : Database} {candidate : Candidate} {id : String} {h : Host}
    (hi : (db.insert candidate id).1 = .ok (some h)) : h.id = id := by
  unfold Database.insert at hi
  split at hi
  · cases hi
  · split at hi
    · cases hi
    · cases hi
      rfl

/-- The table has one row for each host of a list, in that order, and no two of them share an id or
a code. Nothing is said about whether the rows can be read. -/
structure Records (db : Database) (hosts : List Host) : Prop where
  rows : db.hosts = some (hosts.map Row.ofHost)
  ids : (hosts.map (·.id)).Nodup
  codes : (hosts.map (·.code)).Nodup

namespace Records

variable {db : Database} {hosts : List Host} (hr : db.Records hosts)

include hr

theorem append {host : Host} (hnew : ∀ h ∈ hosts, h.id ≠ host.id ∧ h.code ≠ host.code) :
    Records { db with hosts := some ((hosts ++ [host]).map Row.ofHost) } (hosts ++ [host]) := by
  have hnodup {key : Host → String} (hn : (hosts.map key).Nodup)
      (hkey : ∀ h ∈ hosts, key h ≠ key host) : ((hosts ++ [host]).map key).Nodup := by
    rw [List.map_append, List.map_singleton, List.nodup_append]
    refine ⟨hn, List.pairwise_singleton _ _, fun x hx y hy => ?_⟩
    obtain ⟨h, hh, rfl⟩ := List.mem_map.mp hx
    rw [List.mem_singleton.mp hy]
    exact hkey h hh
  exact ⟨rfl, hnodup hr.ids fun h hh => (hnew h hh).1, hnodup hr.codes fun h hh => (hnew h hh).2⟩

theorem erase (id : String) : (db.erase id).Records (hosts.filter fun h => h.id ≠ id) :=
  ⟨erase_of_hosts hr.rows id, hr.ids.sublist (List.filter_sublist.map _),
    hr.codes.sublist (List.filter_sublist.map _)⟩

theorem refresh (id : String) (moment : Instant) :
    (db.refresh hosts id moment).Records (hosts.map (refreshed id moment)) := by
  have hcode : ∀ h, (refreshed id moment h).code = h.code := by
    intro h
    unfold refreshed
    split <;> rfl
  refine ⟨rfl, ?_, ?_⟩
  · rw [List.map_map]
    exact (List.map_congr_left fun h _ => id_refreshed id moment h) ▸ hr.ids
  · rw [List.map_map]
    exact (List.map_congr_left fun h _ => hcode h) ▸ hr.codes

end Records

/-- The rows of the table are hosts, no two of which share an id or a code. -/
structure Stocks (db : Database) (hosts : List Host) : Prop extends db.Keeps hosts where
  ids : (hosts.map (·.id)).Nodup
  codes : (hosts.map (·.code)).Nodup

theorem Stocks.records {db : Database} {hosts : List Host} (hk : db.Stocks hosts) :
    db.Records hosts :=
  ⟨hk.rows, hk.ids, hk.codes⟩

theorem Keeps.stocks {db : Database} {hosts : List Host} (hk : db.Keeps hosts)
    (hr : db.Records hosts) : db.Stocks hosts :=
  ⟨hk, hr.ids, hr.codes⟩

theorem stocks_empty : Stocks {} [] where
  rows := rfl
  storable h hh := by cases hh
  ids := List.nodup_nil
  codes := List.nodup_nil

theorem find?_key {key : Host → String} {hosts : List Host} (hn : (hosts.map key).Nodup)
    (value : String) (h : Host) :
    hosts.find? (fun h => key h = value) = some h ↔ h ∈ hosts ∧ key h = value := by
  constructor
  · intro hf
    exact ⟨List.mem_of_find?_eq_some hf, by simpa using List.find?_some hf⟩
  · rintro ⟨hmem, rfl⟩
    refine find?_eq_of_iff fun host => ?_
    rw [decide_eq_true_eq, Option.some.injEq]
    constructor
    · rintro rfl
      exact ⟨hmem, rfl⟩
    · rintro ⟨hhost, hkey⟩
      exact (List.inj_on_of_nodup_map hn hhost hmem hkey).symm

/-- What running a command comes to in a table of hosts. -/
inductive Serves (hosts : List Host) {command : Command} :
    Except Fault command.Answer → Database → Prop
  | answers {answer : command.Answer} {db : Database} {hosts' : List Host}
    (fits : command.Fits (· ∈ hosts) answer)
    (makes : Change.Makes (· ∈ hosts) (· ∈ hosts') (command.change? answer))
    (stocks : db.Stocks hosts') : Serves hosts (.ok answer) db
  | fails {fault : Fault} {db : Database} (stocks : db.Stocks hosts)
    (settings : ¬ command.IsOfHosts) : Serves hosts (.error fault) db

namespace Stocks

variable {db : Database} {hosts : List Host} (hk : db.Stocks hosts)

include hk

/-- Neither the rows nor their hosts depend on the settings. -/
theorem of_hosts_eq {db' : Database} (h : db'.hosts = db.hosts) : db'.Stocks hosts :=
  ⟨⟨h.trans hk.rows, hk.storable⟩, hk.ids, hk.codes⟩

theorem holds_iff (h : Host) : db.findById h.id = .ok (some h) ↔ h ∈ hosts := by
  rw [hk.findById, Except.ok.injEq, find?_key hk.ids]
  exact and_iff_left rfl

theorem serves_insert {candidate : Candidate} (hmoment : candidate.moment.Storable)
    (draws : Draws) :
    Serves hosts (db.run draws (.insert candidate)).1 (db.run draws (.insert candidate)).2.1 := by
  simp only [Database.run, insert_of_hosts hk.rows]
  generalize draws.draw.1.simple = id
  split
  · exact .answers (fun h hh => by cases hh) (.still fun _ => .rfl) hk
  · next hfree =>
    have hnew : ∀ h ∈ hosts, h.id ≠ (candidate.host id).id ∧
        h.code ≠ (candidate.host id).code := by
      simpa [Candidate.host] using hfree
    have hstorable : (candidate.host id).Storable := ⟨hmoment, hmoment⟩
    refine .answers (fun h hh => ⟨id, (Option.some.inj hh).symm⟩)
      (.added (fun h hh => (hnew h hh).1) (fun h hh => (hnew h hh).2) fun h => ?_)
      ((hk.append hstorable).stocks (hk.records.append hnew))
    rw [List.mem_append, List.mem_singleton, or_comm]

theorem erase (id : String) : (db.erase id).Stocks (hosts.filter fun h => h.id ≠ id) :=
  (Keeps.erase hk.toKeeps id).stocks (hk.records.erase id)

theorem deleteFound (found : Option Host) (hfound : ∀ h ∈ found, h ∈ hosts) :
    (db.deleteFound (.ok found)).1 = .ok found ∧
      ∃ hosts', (db.deleteFound (.ok found)).2.Stocks hosts' ∧
        Change.Makes (· ∈ hosts) (· ∈ hosts') (found.map .removed) := by
  cases found with
  | none => exact ⟨rfl, hosts, hk, .still fun _ => .rfl⟩
  | some host =>
    refine ⟨rfl, _, hk.erase host.id, .removed (hfound host rfl) fun h => ?_⟩
    rw [List.mem_filter, decide_eq_true_eq]

theorem serves_deleteById (id : String) (draws : Draws) :
    Serves hosts (db.run draws (.deleteById id)).1 (db.run draws (.deleteById id)).2.1 := by
  have hfits := find?_key hk.ids id
  obtain ⟨hanswer, hosts', hafter, hmakes⟩ :=
    hk.deleteFound _ fun h hh => ((hfits h).mp hh).1
  simp only [Database.run, Database.deleteById, hk.findById, hanswer]
  exact .answers hfits hmakes hafter

theorem serves_deleteByCode (code : String) (draws : Draws) :
    Serves hosts (db.run draws (.deleteByCode code)).1
      (db.run draws (.deleteByCode code)).2.1 := by
  have hfits := find?_key hk.codes code
  obtain ⟨hanswer, hosts', hafter, hmakes⟩ :=
    hk.deleteFound _ fun h hh => ((hfits h).mp hh).1
  simp only [Database.run, Database.deleteByCode, hk.findByCode, hanswer]
  exact .answers hfits hmakes hafter

theorem refresh (id : String) {moment : Instant} (hmoment : moment.Storable) :
    (db.refresh hosts id moment).Stocks (hosts.map (refreshed id moment)) :=
  (Keeps.refresh hk.toKeeps id hmoment).stocks (hk.records.refresh id moment)

theorem mem_refreshed {host : Host} (hhost : host ∈ hosts) (moment : Instant) (h : Host) :
    h ∈ hosts.map (refreshed host.id moment) ↔
      h = { host with updatedAt := moment } ∨ h ∈ hosts ∧ h.id ≠ host.id := by
  rw [List.mem_map]
  constructor
  · rintro ⟨old, hold, rfl⟩
    by_cases hid : old.id = host.id
    · obtain rfl := List.inj_on_of_nodup_map hk.ids hold hhost hid
      exact .inl (if_pos rfl)
    · rw [refreshed, if_neg hid]
      exact .inr ⟨hold, hid⟩
  · rintro (rfl | ⟨hh, hid⟩)
    · exact ⟨host, hhost, if_pos rfl⟩
    · exact ⟨h, hh, if_neg hid⟩

theorem serves_touch (id : String) {moment : Instant} (hmoment : moment.Storable)
    (draws : Draws) :
    Serves hosts (db.run draws (.touch id moment)).1 (db.run draws (.touch id moment)).2.1 := by
  simp only [Database.run, touch_of_hosts hk.rows]
  split
  · next hany =>
    obtain ⟨host, hhost, hid⟩ := List.any_eq_true.mp hany
    obtain rfl : host.id = id := of_decide_eq_true hid
    have hafter := hk.refresh host.id hmoment
    have hmem := hk.mem_refreshed hhost moment
    have hfound : (db.refresh hosts host.id moment).findById host.id
        = .ok (some { host with updatedAt := moment }) :=
      (hafter.holds_iff { host with updatedAt := moment }).mpr ((hmem _).mpr (.inl rfl))
    rw [hfound]
    refine .answers (fun h => ?_) (.renewed hhost moment hmem) hafter
    constructor
    · rintro ⟨⟩
      exact ⟨host, hhost, rfl, rfl⟩
    · rintro ⟨old, hold, hid, rfl⟩
      rw [List.inj_on_of_nodup_map hk.ids hold hhost hid]
  · next hnone =>
    refine .answers (fun h => ⟨fun hh => (by cases hh), ?_⟩) (.still fun _ => .rfl) hk
    rintro ⟨old, hold, hid, -⟩
    exact absurd (List.any_eq_true.mpr ⟨old, hold, decide_eq_true hid⟩) hnone

theorem serves {command : Command} (hs : command.Storable) (draws : Draws) :
    Serves hosts (db.run draws command).1 (db.run draws command).2.1 := by
  cases command with
  | insert candidate => exact hk.serves_insert hs draws
  | findById id =>
    simp only [Database.run, hk.findById]
    exact .answers (find?_key hk.ids id) (.still fun _ => .rfl) hk
  | findByCode code =>
    simp only [Database.run, hk.findByCode]
    exact .answers (find?_key hk.codes code) (.still fun _ => .rfl) hk
  | deleteById id => exact hk.serves_deleteById id draws
  | deleteByCode code => exact hk.serves_deleteByCode code draws
  | list =>
    simp only [Database.run, hk.list]
    exact .answers ⟨Host.before_mergeSort hk.ids, fun h => List.mem_mergeSort⟩
      (.still fun _ => .rfl) hk
  | touch id moment => exact hk.serves_touch id hs draws
  | settings =>
    simp only [Database.run]
    cases db.readSettings with
    | error fault => exact .fails hk id
    | ok document => exact .answers trivial (.still fun _ => .rfl) hk
  | merge patch =>
    simp only [Database.run, Database.merge]
    cases db.readSettings with
    | error fault => exact .fails hk id
    | ok document =>
      exact .answers trivial (.merged _ fun _ => .rfl) (hk.of_hosts_eq rfl)

end Stocks
end Database

/-- The worker's table holds the hosts, and nobody waits for what is queued. -/
structure Worker.Stocks (w : Worker) (hosts : List Host) : Prop where
  database : w.database.Stocks hosts
  left : w.Forsaken

/-- The same table behind another queue that nobody waits for. -/
theorem Worker.Stocks.of_database {w w' : Worker} {hosts : List Host} (h : w.Stocks hosts)
    (hw : w'.Forsaken ∧ w'.database = w.database) : w'.Stocks hosts :=
  ⟨hw.2 ▸ h.database, hw.1⟩

/-! ## Either backing -/

namespace Backing

/-- The host is stored, under its own id. -/
def Holds : Backing → Host → Prop
  | .memory store, h => store.Holds h
  | .database worker _, h => worker.database.findById h.id = .ok (some h)

/-- All hosts can be read, no two of them share a key, and no call is left waiting. -/
def Sound : Backing → Prop
  | .memory store => store.Consistent
  | .database worker _ => ∃ hosts, worker.Stocks hosts

theorem sound_memory : (Backing.memory {}).Sound := Memory.consistent_empty

theorem sound_database : (Backing.database { database := {} } false).Sound :=
  ⟨[], Database.stocks_empty, fun _ _ h => by cases h⟩

/-- What a call comes to: it is answered, or it leaves the hosts as they are. -/
inductive Serves (b : Backing) {command : Command} : Outcome command → Backing → Prop
  | answers {answer : command.Answer} {b' : Backing} (fits : command.Fits b.Holds answer)
    (makes : Change.Makes b.Holds b'.Holds (command.change? answer)) (sound : b'.Sound)
    (worked : b.Works) (works : b'.Works) : Serves b (.answered answer) b'
  | misses {outcome : Outcome command} {b' : Backing} (miss : outcome.IsMiss)
    (same : b'.Holds = b.Holds) (sound : b'.Sound)
    (idle : b.Works → ¬ command.IsOfHosts) (works : b'.Works ↔ b.Works) : Serves b outcome b'

variable {b b' : Backing}

namespace Serves

variable {command : Command} {outcome : Outcome command}

theorem sound (h : b.Serves outcome b') : b'.Sound := by
  cases h with
  | answers fits makes sound worked works => exact sound
  | misses miss same sound idle works => exact sound

theorem of_answered (h : b.Serves outcome b') {answer : command.Answer}
    (he : outcome = .answered answer) : command.Fits b.Holds answer ∧
      Change.Makes b.Holds b'.Holds (command.change? answer) ∧ b'.Sound := by
  cases h with
  | answers fits makes sound worked works =>
    cases he
    exact ⟨fits, makes, sound⟩
  | misses miss same sound idle works =>
    rw [he] at miss
    cases miss

theorem of_isMiss (h : b.Serves outcome b') (hmiss : outcome.IsMiss) :
    b'.Sound ∧ b'.Holds = b.Holds := by
  cases h with
  | answers fits makes sound worked works => cases hmiss
  | misses miss same sound idle works => exact ⟨sound, same⟩

end Serves

theorem holds_eq {worker : Worker} {parked : Bool} {hosts : List Host}
    (h : worker.Stocks hosts) : (Backing.database worker parked).Holds = (· ∈ hosts) := by
  funext host
  exact propext (h.database.holds_iff host)

namespace Sound

theorem eq_of_id (hb : b.Sound) {x y : Host} (hx : b.Holds x) (hy : b.Holds y)
    (he : x.id = y.id) : x = y := by
  match b with
  | .memory store => exact Memory.Holds.eq_of_id hx hy he
  | .database worker _ =>
    rw [Holds, he] at hx
    exact Option.some.inj (Except.ok.inj (hx.symm.trans hy))

theorem serves_perform {worker : Worker} {hosts : List Host} (h : worker.Stocks hosts)
    {command : Command} (hs : command.Storable) (draws : Draws) :
    (Backing.database worker false).Serves ((Backing.database worker false).run draws command).1
      ((Backing.database worker false).run draws command).2.1 := by
  simp only [Backing.run, Worker.perform]
  split
  · next hstopped =>
    refine .misses trivial rfl ⟨hosts, h⟩ (fun hworks => ?_) .rfl
    rw [hworks.2] at hstopped
    cases hstopped
  · next hrunning =>
    have hworks : (Backing.database worker false).Works := ⟨rfl, Bool.eq_false_iff.mpr hrunning⟩
    have hrun := h.database.serves hs draws
    have hheld : (Backing.database worker false).Holds = _ := holds_eq h
    generalize (worker.database.run draws command).1 = result at *
    generalize (worker.database.run draws command).2.1 = db at *
    cases hrun with
    | answers fits makes stocks =>
      have hafter : Worker.Stocks { worker with database := db, callers := worker.callers + 1 } _ :=
        ⟨stocks, h.left⟩
      refine .answers (hheld ▸ fits) ?_ ⟨_, hafter⟩ hworks hworks
      rw [hheld, holds_eq hafter]
      exact makes
    | fails stocks settings =>
      have hafter : Worker.Stocks { worker with database := db, callers := worker.callers + 1 } _ :=
        ⟨stocks, h.left⟩
      exact .misses trivial ((holds_eq hafter).trans hheld.symm) ⟨_, hafter⟩
        (fun _ => settings) .rfl

theorem eq_of_code (hb : b.Sound) {x y : Host} (hx : b.Holds x) (hy : b.Holds y)
    (he : x.code = y.code) : x = y := by
  match b with
  | .memory store => exact Memory.Holds.eq_of_code hb hx hy he
  | .database worker _ =>
    obtain ⟨hosts, h⟩ := hb
    rw [holds_eq h] at hx hy
    exact List.inj_on_of_nodup_map h.database.codes hx hy he

theorem serves (hb : b.Sound) (command : Command) (hs : command.Storable) (draws : Draws) :
    b.Serves (b.run draws command).1 (b.run draws command).2.1 := by
  match b with
  | .memory store =>
    exact .answers (Memory.fits_run hb draws command) (Memory.takes_run hb draws command).makes
      (Memory.Consistent.run hb draws command) trivial trivial
  | .database worker false =>
    obtain ⟨hosts, h⟩ := hb
    exact serves_perform h hs draws
  | .database worker true =>
    obtain ⟨hosts, h⟩ := hb
    simp only [Backing.run]
    split
    · next worker' hsubmit =>
      unfold Worker.submit at hsubmit
      split at hsubmit
      · cases hsubmit
        exact .misses trivial rfl ⟨hosts, h⟩ (fun hworks => by cases hworks.1) .rfl
      · cases hsubmit
    · next caller worker' hsubmit =>
      have hafter := h.of_database (h.left.hangUp hsubmit)
      have hparked : ∀ w : Worker, ¬ (Backing.database w true).Works := fun _ hworks =>
        Bool.noConfusion hworks.1
      exact .misses trivial ((holds_eq hafter).trans (holds_eq h).symm) ⟨hosts, hafter⟩
        (fun hworks => (hparked _ hworks).elim) (iff_of_false (hparked _) (hparked _))

theorem park (hb : b.Sound) : b.park.Sound ∧ b.park.Holds = b.Holds := by
  cases b <;> exact ⟨hb, rfl⟩

theorem release (hb : b.Sound) (draws : Draws) :
    (b.release draws).1.Sound ∧ (b.release draws).1.Holds = b.Holds ∧
      (b.release draws).2 = draws := by
  match b with
  | .memory store => exact ⟨hb, rfl, rfl⟩
  | .database worker parked =>
    obtain ⟨hosts, h⟩ := hb
    obtain ⟨hforsaken, hsame, hdraws⟩ := h.left.handleAll worker.queue.length draws
    have hafter := h.of_database ⟨hforsaken, hsame⟩
    exact ⟨⟨hosts, hafter⟩, (holds_eq hafter).trans (holds_eq h).symm, hdraws⟩

theorem shutdown (hb : b.Sound) (draws : Draws) :
    (b.shutdown draws).2.1.Sound ∧ (b.shutdown draws).2.1.Holds = b.Holds ∧
      (b.shutdown draws).2.2 = draws := by
  match b with
  | .memory store => exact ⟨hb, rfl, rfl⟩
  | .database worker parked =>
    obtain ⟨hosts, h⟩ := hb
    have hqueued := h.of_database h.left.submitStop
    have hstop : (Backing.database worker.submitStop.2 parked).Sound := ⟨hosts, hqueued⟩
    have hsame : (Backing.database worker.submitStop.2 parked).Holds
        = (Backing.database worker parked).Holds :=
      (holds_eq hqueued).trans (holds_eq h).symm
    unfold Backing.shutdown
    dsimp only
    split
    · exact ⟨hstop, hsame, rfl⟩
    · obtain ⟨hafter, hheld, hdraws⟩ := hstop.release draws
      exact ⟨hafter, hheld.trans hsame, hdraws⟩

end Sound

/-- What comes of calls of the store, and of parking, releasing, stopping and opening its database
anew, from an empty one. -/
inductive Reachable : Backing → Prop
  | memory : Reachable (.memory {})
  | database : Reachable (.database { database := {} } false)
  | run {b : Backing} (h : Reachable b) (draws : Draws) {command : Command}
    (hs : command.Storable) : Reachable (b.run draws command).2.1
  | park {b : Backing} (h : Reachable b) : Reachable b.park
  | release {b : Backing} (h : Reachable b) (draws : Draws) : Reachable (b.release draws).1
  | shutdown {b : Backing} (h : Reachable b) (draws : Draws) : Reachable (b.shutdown draws).2.1
  | reopen {worker : Worker} {parked : Bool} (h : Reachable (.database worker parked)) :
    Reachable (.database { database := worker.database.withTables } false)

theorem Sound.reopen {worker : Worker} {parked : Bool}
    (h : (Backing.database worker parked).Sound) :
    (Backing.database { database := worker.database.withTables } false).Sound := by
  obtain ⟨hosts, hw⟩ := h
  refine ⟨hosts, hw.database.of_hosts_eq ?_, fun _ _ hmem => by cases hmem⟩
  simp only [Database.withTables, hw.database.rows, Option.getD_some]

theorem Reachable.sound (h : b.Reachable) : b.Sound := by
  induction h with
  | memory => exact sound_memory
  | database => exact sound_database
  | run h draws hs ih => exact (ih.serves _ hs draws).sound
  | park h ih => exact ih.park.1
  | release h draws ih => exact (ih.release draws).1
  | shutdown h draws ih => exact (ih.shutdown draws).1
  | reopen h ih => exact ih.reopen

/-! ## Inserts -/

/-- The id of a host that was inserted was drawn for it. -/
theorem insert_drawn {candidate : Candidate} {draws : Draws} {h : Host}
    (hrun : (b.run draws (.insert candidate)).1 = .answered (some h)) :
    h.id ∈ draws.idsUntil (b.run draws (.insert candidate)).2.2 := by
  match b with
  | .memory store => exact Memory.insert_drawn (Prod.ext (Outcome.answered.inj hrun) rfl)
  | .database worker true =>
    simp only [Backing.run] at hrun
    split at hrun <;> cases hrun
  | .database worker false =>
    simp only [Backing.run, Worker.perform] at hrun ⊢
    split at hrun
    · cases hrun
    · next hstopped =>
      rw [if_neg hstopped]
      show h.id ∈ draws.idsUntil (draws.skip 1)
      rw [Draws.idsUntil_skip]
      exact List.mem_singleton.mpr (Database.id_of_insert (Outcome.ofResult_eq_answered hrun))

/-- A host is stored under the id that is drawn, if neither the id nor its code is taken. -/
theorem Sound.insert_free (hb : b.Sound) (hworks : b.Works) {candidate : Candidate}
    {draws : Draws} (hid : ∀ h, b.Holds h → h.id ≠ draws.draw.1.simple)
    (hcode : ∀ h, b.Holds h → h.code ≠ candidate.code) :
    (b.run draws (.insert candidate)).1
      = .answered (some (candidate.host draws.draw.1.simple)) := by
  match b with
  | .memory store =>
    have hnone := (Memory.codes_eq_none_iff hb).mpr hcode
    simp only [Backing.run, Memory.run]
    rw [AlikeHosts.insert_fresh ((Memory.findById_eq_none_iff hb).mpr hid),
      if_neg (Bool.eq_false_iff.mp (Index.contains_eq_false.mpr hnone))]
  | .database worker parked =>
    obtain ⟨rfl, hstopped⟩ := hworks
    obtain ⟨hosts, h⟩ := hb
    rw [holds_eq h] at hid hcode
    have hfree : ¬ hosts.any (fun h => h.id = draws.draw.1.simple || h.code = candidate.code) := by
      simpa using fun h hh => ⟨hid h hh, hcode h hh⟩
    simp only [Backing.run, Worker.perform, hstopped, Database.run,
      Database.insert_of_hosts h.database.rows, if_neg hfree]
    rfl

end Backing
end Rendezvous
