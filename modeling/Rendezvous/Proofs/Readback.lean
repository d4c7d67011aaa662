import Rendezvous.Proofs.Failures
import Rendezvous.Proofs.Stock
import Rendezvous.Startup.Daemon

/-!
# What a database accepts and what it reads back

A host is written with whatever instant it brings along, but only instants of the years 0000 to 9999
are read. `Command.Trips` is the table of the commands that fail for the row of a host, and
`Database.Records.fails_iff` says that commands on hosts fail for nothing else. An insert in another
year is accepted, and from then on the table cannot be listed.
-/

namespace Rendezvous

/-- The command comes upon the row of the host and cannot read it. A touch has overwritten the time
of refresh by then. -/
def Command.Trips : Command → Host → Prop
  | .findById id, h | .deleteById id, h => h.id = id ∧ ¬ h.Storable
  | .findByCode code, h | .deleteByCode code, h => h.code = code ∧ ¬ h.Storable
  | .list, h => ¬ h.Storable
  | .touch id moment, h => h.id = id ∧ ¬ (h.createdAt.Storable ∧ moment.Storable)
  | .insert _, _ | .settings, _ | .merge _, _ => False

theorem Command.Storable.not_trips {command : Command} (hs : command.Storable) {h : Host}
    (hh : h.Storable) : ¬ command.Trips h := by
  cases command with
  | findById | deleteById | findByCode | deleteByCode => exact fun ht => ht.2 hh
  | list => exact fun ht => ht hh
  | touch id moment => exact fun ht => ht.2 ⟨hh.1, hs⟩
  | insert | settings | merge => exact id

/-- The row of a host cannot be read exactly if one of its instants lies in another year. -/
theorem Row.ofHost_fails_iff (h : Host) : (∃ fault, (ofHost h).host = .error fault) ↔
    ¬ h.Storable := by
  constructor
  · rintro ⟨fault, hfault⟩ hs
    cases hfault.symm.trans (host_ofHost hs)
  · intro hs
    cases hread : (ofHost h).host with
    | error fault => exact ⟨fault, rfl⟩
    | ok g =>
      obtain ⟨hbesides, updated, u, ⟨⟩, hu⟩ := (reads_iff _).mp ⟨g, hread⟩
      obtain ⟨created, t, ⟨⟩, ht⟩ := hbesides.created
      exact absurd ⟨(Stamp.strict_full_iff _).mp ⟨t, ht⟩, (Stamp.strict_full_iff _).mp ⟨u, hu⟩⟩ hs

namespace Database

theorem deleteFound_answer (db : Database) (found : Except Fault (Option Host)) :
    (db.deleteFound found).1 = found := by
  match found with
  | .ok (some _) | .ok none | .error _ => rfl

theorem hostsOf_fails_iff (rows : List Row) : (∃ fault, hostsOf rows = .error fault) ↔
    ∃ r ∈ rows, ∃ fault, r.host = .error fault := by
  induction rows with
  | nil =>
    refine iff_of_false (ok_not_error _) ?_
    rintro ⟨r, hr, -⟩
    cases hr
  | cons r rows ih =>
    rw [List.exists_mem_cons_iff, ← ih, hostsOf]
    cases r.host with
    | error fault => exact iff_of_true ⟨fault, rfl⟩ (.inl ⟨fault, rfl⟩)
    | ok host =>
      rw [ok_bind]
      cases hostsOf rows with
      | error fault => exact iff_of_true ⟨fault, rfl⟩ (.inr ⟨fault, rfl⟩)
      | ok hosts =>
        refine iff_of_false (ok_not_error _) ?_
        rintro (⟨fault, he⟩ | hfails)
        · cases he
        · exact ok_not_error _ hfails

/-! ## Commands on a table of hosts -/

namespace Records

variable {db : Database} {hosts : List Host} (hr : db.Records hosts)

include hr

section

variable {during : Activity} {column : Row → Cell} {key : Host → String}
  (hcolumn : ∀ h, column (.ofHost h) = .text (key h))

include hcolumn

/-- A query finds no host, or the first one with the key, which can be read or not. -/
theorem queryOne_cases (value : String) :
    db.queryOne during column value = .ok none ∧ (∀ h ∈ hosts, key h ≠ value) ∨
      ∃ h ∈ hosts, key h = value ∧
        (h.Storable ∧ db.queryOne during column value = .ok (some h) ∨
          ¬ h.Storable ∧ ∃ fault, db.queryOne during column value = .error fault) := by
  have hrows := rows_of_hosts hr.rows during
  have hp (h : Host) : column (.ofHost h) = .text value ↔ decide (key h = value) = true := by
    rw [hcolumn, Cell.text.injEq, decide_eq_true_eq]
  have hrow := find?_ofHost hp hosts
  cases hfind : hosts.find? fun h => key h = value with
  | none =>
    rw [hfind, Option.map_none] at hrow
    refine .inl ⟨queryOne_of_none hrows hrow, fun h hh => ?_⟩
    simpa using List.find?_eq_none.mp hfind h hh
  | some h =>
    rw [hfind, Option.map_some] at hrow
    refine .inr ⟨h, List.mem_of_find?_eq_some hfind, by simpa using List.find?_some hfind, ?_⟩
    by_cases hs : h.Storable
    · exact .inl ⟨hs, queryOne_of_some hrows hrow (Row.host_ofHost hs)⟩
    · obtain ⟨fault, hfault⟩ := (Row.ofHost_fails_iff h).mpr hs
      exact .inr ⟨hs, _, queryOne_of_error hrows hrow hfault⟩

theorem queryOne_found {value : String} {h : Host}
    (hquery : db.queryOne during column value = .ok (some h)) : h ∈ hosts ∧ h.Storable := by
  rcases hr.queryOne_cases hcolumn value with ⟨he, -⟩ | ⟨g, hg, -, ⟨hs, he⟩ | ⟨-, fault, he⟩⟩
  · cases he.symm.trans hquery
  · cases he.symm.trans hquery
    exact ⟨hg, hs⟩
  · cases he.symm.trans hquery

variable (hn : (hosts.map key).Nodup)

include hn

theorem queryOne_eq_some_iff {h : Host} (hh : h ∈ hosts) :
    db.queryOne during column (key h) = .ok (some h) ↔ h.Storable := by
  rcases hr.queryOne_cases hcolumn (key h) with ⟨-, hnone⟩ | ⟨g, hg, hkey, hcase⟩
  · exact absurd rfl (hnone h hh)
  · obtain rfl := List.inj_on_of_nodup_map hn hg hh hkey
    rcases hcase with ⟨hs, hquery⟩ | ⟨hs, fault, hquery⟩
    · exact iff_of_true hquery hs
    · refine iff_of_false (fun he => ?_) hs
      cases hquery.symm.trans he

theorem queryOne_fails_iff (value : String) :
    (∃ fault, db.queryOne during column value = .error fault) ↔
      ∃ h ∈ hosts, key h = value ∧ ¬ h.Storable := by
  rcases hr.queryOne_cases hcolumn value with ⟨hquery, hnone⟩ | ⟨g, hg, hkey, hcase⟩
  · rw [hquery]
    refine iff_of_false (ok_not_error _) ?_
    rintro ⟨h, hh, hkey, -⟩
    exact hnone h hh hkey
  · rcases hcase with ⟨hs, hquery⟩ | ⟨hs, hfails⟩
    · rw [hquery]
      refine iff_of_false (ok_not_error _) ?_
      rintro ⟨h, hh, rfl, hns⟩
      exact hns (List.inj_on_of_nodup_map hn hg hh hkey ▸ hs)
    · exact iff_of_true hfails ⟨g, hg, hkey, hs⟩

end

theorem list_fails_iff : (∃ fault, db.list = .error fault) ↔ ∃ h ∈ hosts, ¬ h.Storable := by
  have hlist : (∃ fault, db.list = .error fault) ↔
      ∃ fault, hostsOf ((hosts.map Row.ofHost).mergeSort Row.le) = .error fault := by
    rw [Database.list, rows_of_hosts hr.rows, ok_bind]
    cases hostsOf ((hosts.map Row.ofHost).mergeSort Row.le) with
    | ok all => exact iff_of_false (ok_not_error _) (ok_not_error _)
    | error fault => exact iff_of_true ⟨_, rfl⟩ ⟨_, rfl⟩
  rw [hlist, hostsOf_fails_iff]
  constructor
  · rintro ⟨r, hmem, hfails⟩
    obtain ⟨h, hh, rfl⟩ := List.mem_map.mp (List.mem_mergeSort.mp hmem)
    exact ⟨h, hh, (Row.ofHost_fails_iff h).mp hfails⟩
  · rintro ⟨h, hh, hs⟩
    exact ⟨.ofHost h, List.mem_mergeSort.mpr (List.mem_map_of_mem hh),
      (Row.ofHost_fails_iff h).mpr hs⟩

theorem touch_fails_iff (id : String) (moment : Instant) :
    (∃ fault, (db.touch id moment).1 = .error fault) ↔
      ∃ h ∈ hosts, h.id = id ∧ ¬ (h.createdAt.Storable ∧ moment.Storable) := by
  have hrefreshed {h : Host} (hid : h.id = id) : (refreshed id moment h).Storable ↔
      h.createdAt.Storable ∧ moment.Storable := by
    rw [refreshed, if_pos hid]
    rfl
  rw [touch_of_hosts hr.rows]
  split
  · rw [findById, (hr.refresh id moment).queryOne_fails_iff (fun _ => rfl)
      (hr.refresh id moment).ids]
    constructor
    · rintro ⟨h, hh, hid, hs⟩
      obtain ⟨old, hold, rfl⟩ := List.mem_map.mp hh
      rw [id_refreshed] at hid
      exact ⟨old, hold, hid, fun hboth => hs ((hrefreshed hid).mpr hboth)⟩
    · rintro ⟨h, hh, hid, hs⟩
      exact ⟨_, List.mem_map_of_mem hh, (id_refreshed id moment h).trans hid,
        fun hboth => hs ((hrefreshed hid).mp hboth)⟩
  · next hnone =>
    refine iff_of_false (ok_not_error _) ?_
    rintro ⟨h, hh, hid, -⟩
    exact hnone (List.any_eq_true.mpr ⟨h, hh, decide_eq_true hid⟩)

/-- An insert is refused, or it adds a row, whatever the instant. -/
theorem insert_cases (candidate : Candidate) (id : String) :
    db.insert candidate id = (.ok none, db) ∨
      (db.insert candidate id).1 = .ok (some (candidate.host id)) ∧
        (db.insert candidate id).2.Records (hosts ++ [candidate.host id]) := by
  rw [insert_of_hosts hr.rows]
  split
  · exact .inl rfl
  · next hfree =>
    have hnew : ∀ h ∈ hosts, h.id ≠ (candidate.host id).id ∧
        h.code ≠ (candidate.host id).code := by
      simpa [Candidate.host] using hfree
    exact .inr ⟨rfl, hr.append hnew⟩

theorem inserted {draws : Draws} {candidate : Candidate} {host : Host}
    (hi : (db.run draws (.insert candidate)).1 = .ok (some host)) :
    host = candidate.host draws.draw.1.simple ∧
      (db.run draws (.insert candidate)).2.1.Records (hosts ++ [host]) := by
  rcases hr.insert_cases candidate draws.draw.1.simple with he | ⟨he, hafter⟩
  · cases (congrArg Prod.fst he).symm.trans hi
  · cases he.symm.trans hi
    exact ⟨rfl, hafter⟩

/-- A command on hosts fails exactly if it comes upon a row that it cannot read. -/
theorem fails_iff {command : Command} (hc : command.IsOfHosts) (draws : Draws) :
    (∃ fault, (db.run draws command).1 = .error fault) ↔ ∃ h ∈ hosts, command.Trips h := by
  cases command with
  | insert candidate =>
    refine iff_of_false ?_ fun ⟨h, hh, ht⟩ => ht
    rintro ⟨fault, hfault⟩
    rcases hr.insert_cases candidate draws.draw.1.simple with he | ⟨he, -⟩
    · cases (congrArg Prod.fst he).symm.trans hfault
    · cases he.symm.trans hfault
  | findById id => exact hr.queryOne_fails_iff (fun _ => rfl) hr.ids id
  | findByCode code => exact hr.queryOne_fails_iff (fun _ => rfl) hr.codes code
  | deleteById id =>
    simp only [Database.run, deleteById, deleteFound_answer]
    exact hr.queryOne_fails_iff (fun _ => rfl) hr.ids id
  | deleteByCode code =>
    simp only [Database.run, deleteByCode, deleteFound_answer]
    exact hr.queryOne_fails_iff (fun _ => rfl) hr.codes code
  | list => exact hr.list_fails_iff
  | touch id moment => exact hr.touch_fails_iff id moment
  | settings | merge => exact hc.elim

/-- The rows of a host that cannot be read for its creation time stay. -/
theorem deleteFound {found : Except Fault (Option Host)}
    (hfound : ∀ h, found = .ok (some h) → h ∈ hosts ∧ h.Storable) :
    ∃ hosts', (db.deleteFound found).2.Records hosts' ∧
      ∀ h ∈ hosts, ¬ h.createdAt.Storable → ∃ g ∈ hosts', g.createdAt = h.createdAt := by
  match found with
  | .error _ | .ok none => exact ⟨hosts, hr, fun h hh _ => ⟨h, hh, rfl⟩⟩
  | .ok (some host) =>
    obtain ⟨hmem, hs⟩ := hfound host rfl
    refine ⟨_, hr.erase host.id, fun h hh hns => ⟨h, List.mem_filter.mpr ⟨hh, ?_⟩, rfl⟩⟩
    rw [decide_eq_true_eq]
    intro hid
    exact hns (List.inj_on_of_nodup_map hr.ids hh hmem hid ▸ hs.1)

/-- Whatever is run, a table of hosts stays one, and creation times that cannot be read stay. -/
theorem run (draws : Draws) (command : Command) :
    ∃ hosts', (db.run draws command).2.1.Records hosts' ∧
      ∀ h ∈ hosts, ¬ h.createdAt.Storable → ∃ g ∈ hosts', g.createdAt = h.createdAt := by
  have hstill : ∀ h ∈ hosts, ¬ h.createdAt.Storable → ∃ g ∈ hosts, g.createdAt = h.createdAt :=
    fun h hh _ => ⟨h, hh, rfl⟩
  cases command with
  | insert candidate =>
    rcases hr.insert_cases candidate draws.draw.1.simple with he | ⟨-, hafter⟩
    · simp only [Database.run, he]
      exact ⟨hosts, hr, hstill⟩
    · exact ⟨_, hafter, fun h hh _ => ⟨h, List.mem_append_left _ hh, rfl⟩⟩
  | deleteById id => exact hr.deleteFound fun h => hr.queryOne_found fun _ => rfl
  | deleteByCode code => exact hr.deleteFound fun h => hr.queryOne_found fun _ => rfl
  | touch id moment =>
    simp only [Database.run, touch_of_hosts hr.rows]
    split
    · refine ⟨_, hr.refresh id moment, fun h hh _ => ⟨_, List.mem_map_of_mem hh, ?_⟩⟩
      unfold refreshed
      split <;> rfl
    · exact ⟨hosts, hr, hstill⟩
  | merge patch =>
    refine ⟨hosts, ?_, hstill⟩
    simp only [Database.run, Database.merge]
    split
    · exact hr
    · exact ⟨hr.rows, hr.ids, hr.codes⟩
  | findById | findByCode | list | settings => exact ⟨hosts, hr, hstill⟩

end Records

/-! ## Sequences of commands -/

theorem Serves.stocks {hosts : List Host} {command : Command}
    {result : Except Fault command.Answer} {db : Database} (h : Serves hosts result db) :
    ∃ hosts', db.Stocks hosts' := by
  cases h with
  | answers _ _ hafter => exact ⟨_, hafter⟩
  | fails hafter _ => exact ⟨_, hafter⟩

/-- What commands make of the tables, one after the other. -/
inductive Leads (db : Database) : List Command → Database → Prop
  | none : Leads db [] db
  | run {past : List Command} {db' : Database} (h : Leads db past db') (draws : Draws)
    (command : Command) : Leads db (past ++ [command]) (db'.run draws command).2.1

namespace Leads

variable {db db' : Database} {past : List Command}

theorem records (h : db.Leads past db') {hosts : List Host} (hr : db.Records hosts) :
    ∃ hosts', db'.Records hosts' ∧
      ∀ h ∈ hosts, ¬ h.createdAt.Storable → ∃ g ∈ hosts', g.createdAt = h.createdAt := by
  induction h with
  | none => exact ⟨hosts, hr, fun h hh _ => ⟨h, hh, rfl⟩⟩
  | run h draws command ih =>
    obtain ⟨between, hbetween, hkept⟩ := ih
    obtain ⟨hosts', hafter, hstep⟩ := hbetween.run draws command
    refine ⟨hosts', hafter, fun h hh hns => ?_⟩
    obtain ⟨f, hf, hcreated⟩ := hkept h hh hns
    obtain ⟨g, hg, hsame⟩ := hstep f hf (hcreated ▸ hns)
    exact ⟨g, hg, hsame.trans hcreated⟩

/-- While all instants that are written can be read, so can all rows. -/
theorem stocks (h : db.Leads past db') {hosts : List Host} (hk : db.Stocks hosts)
    (hs : ∀ command ∈ past, command.Storable) : ∃ hosts', db'.Stocks hosts' := by
  induction h with
  | none => exact ⟨hosts, hk⟩
  | run h draws command ih =>
    obtain ⟨between, hbetween⟩ := ih fun c hc => hs c (List.mem_append_left _ hc)
    exact (hbetween.serves (hs command List.mem_concat_self) draws).stocks

end Leads

/-- No row can be unreadable in a table of hosts that can all be read. -/
theorem Stocks.answers {db : Database} {hosts : List Host} (hk : db.Stocks hosts)
    {command : Command} (hc : command.IsOfHosts) (hs : command.Storable) (draws : Draws) :
    ∃ answer, (db.run draws command).1 = .ok answer := by
  cases hrun : (db.run draws command).1 with
  | ok answer => exact ⟨answer, rfl⟩
  | error fault =>
    obtain ⟨h, hh, htrips⟩ := (hk.records.fails_iff hc draws).mp ⟨fault, hrun⟩
    exact absurd htrips (hs.not_trips (hk.storable h hh))

/-- A daemon that opens a database starts unless the hosts in it cannot be listed. -/
theorem openStore_fails_iff {db : Database} {c : Config} {disk : Disk} {opened : Disk.Opened}
    (hc : c.backend = .database) (hopen : disk.openDatabase c.databasePath = .ok opened)
    (hhosts : opened.content.hosts = db.hosts) :
    (∃ fault, (Daemon.openStore c disk).2 = .error fault) ↔ ∃ fault, db.list = .error fault := by
  have hlist : opened.content.list = db.list := by
    simp only [list, Database.rows, hhosts]
  simp only [Daemon.openStore, hc, hopen, hlist]
  cases db.list with
  | ok all => exact iff_of_false (ok_not_error _) (ok_not_error _)
  | error fault => exact iff_of_true ⟨_, rfl⟩ ⟨_, rfl⟩

/-! ## Inserts that are accepted -/

/-- What comes of an insert that was accepted, before which commands led to the tables `db`. -/
structure Readback (past : List Command) (db : Database) (candidate : Candidate) (host : Host)
    (after : Database) : Prop where
  findById_iff : after.findById host.id = .ok (some host) ↔ candidate.moment.Storable
  findByCode_iff : after.findByCode host.code = .ok (some host) ↔ candidate.moment.Storable
  deleteById_iff : (after.deleteById host.id).1 = .ok (some host) ↔ candidate.moment.Storable
  /-- The commands that fail are those that failed before, and those that come upon the new row when
  it cannot be read. -/
  fails_iff : ∀ draws command, command.IsOfHosts →
    ((∃ fault, (after.run draws command).1 = .error fault) ↔
      (∃ fault, (db.run draws command).1 = .error fault) ∨ command.Trips host)
  /-- While all instants lie in the years 0000 to 9999, no command on hosts ever fails. -/
  never : (∀ c ∈ past, c.Storable) → candidate.moment.Storable → ∀ more later,
    after.Leads more later → (∀ c ∈ more, c.Storable) → ∀ draws command, command.IsOfHosts →
    command.Storable → ∃ answer, (later.run draws command).1 = .ok answer
  /-- After an insert in another year the hosts cannot be listed, whatever is done. -/
  always : ¬ candidate.moment.Storable → ∀ more later, after.Leads more later →
    ∃ fault, later.list = .error fault
  /-- A start fails exactly if the hosts cannot be listed. -/
  openStore_fails_iff : ∀ more later, after.Leads more later → ∀ c disk opened,
    c.backend = .database → disk.openDatabase c.databasePath = .ok opened →
    opened.content.hosts = later.hosts →
    ((∃ fault, (Daemon.openStore c disk).2 = .error fault) ↔ ∃ fault, later.list = .error fault)

/-- What an empty database has accepted it reads back exactly if the instant lies in the years 0000
to 9999. -/
theorem accepted_readback {past : List Command} {db : Database} (h : Leads {} past db)
    {draws : Draws} {candidate : Candidate} {host : Host}
    (hi : (db.run draws (.insert candidate)).1 = .ok (some host)) :
    Readback past db candidate host (db.run draws (.insert candidate)).2.1 := by
  obtain ⟨hosts, hr, -⟩ := h.records stocks_empty.records
  obtain ⟨hhost, hafter⟩ := hr.inserted hi
  have hmem : host ∈ hosts ++ [host] := List.mem_append_right _ (.head _)
  have hcreated : host.createdAt = candidate.moment := hhost ▸ rfl
  have hstorable : host.Storable ↔ candidate.moment.Storable := hhost ▸ and_self_iff
  have hleads := h.run draws (.insert candidate)
  generalize (db.run draws (.insert candidate)).2.1 = after at hafter hleads ⊢
  have hquery : ∀ {during}, after.queryOne during Row.id host.id = .ok (some host) ↔
      candidate.moment.Storable :=
    (hafter.queryOne_eq_some_iff (fun _ => rfl) hafter.ids hmem).trans hstorable
  constructor
  case findById_iff => exact hquery
  case findByCode_iff =>
    exact (hafter.queryOne_eq_some_iff (fun _ => rfl) hafter.codes hmem).trans hstorable
  case deleteById_iff =>
    rw [deleteById, deleteFound_answer]
    exact hquery
  case fails_iff =>
    intro draws command hc
    rw [hafter.fails_iff hc, hr.fails_iff hc]
    simp only [List.mem_append, List.mem_singleton, or_and_right, exists_or, exists_eq_left]
  case never =>
    intro hpast hmoment more later hmore hs draws command hc hstorable
    obtain ⟨between, hbetween⟩ := hleads.stocks stocks_empty fun c hmem => by
      rcases List.mem_append.mp hmem with hmem | hmem
      · exact hpast c hmem
      · exact List.mem_singleton.mp hmem ▸ hmoment
    obtain ⟨hosts', hlater⟩ := hmore.stocks hbetween hs
    exact hlater.answers hc hstorable draws
  case always =>
    intro hmoment more later hmore
    obtain ⟨hosts', hlater, hkept⟩ := hmore.records hafter
    obtain ⟨g, hg, hsame⟩ := hkept host hmem (hcreated ▸ hmoment)
    refine hlater.list_fails_iff.mpr ⟨g, hg, fun hs => hmoment ?_⟩
    exact hcreated ▸ hsame ▸ hs.1
  case openStore_fails_iff =>
    intro more later _ c disk opened hc hopen hhosts
    exact Database.openStore_fails_iff hc hopen hhosts

/-! ### An insert in the year 10000 -/

def lateCandidate : Candidate := ⟨"10.0.0.1", .last 65535, "89A5DC", tenThousand⟩

def lateHost : Host := lateCandidate.host (Draws.draw {}).1.simple

theorem lateCandidate_accepted :
    (Database.run {} {} (.insert lateCandidate)).1 = .ok (some lateHost) := rfl

theorem accepted_readback_late :
    (Database.run {} {} (.insert lateCandidate)).1 = .ok (some lateHost) ∧
    Readback [] {} lateCandidate lateHost (Database.run {} {} (.insert lateCandidate)).2.1 ∧
    ¬ lateCandidate.moment.Storable :=
  ⟨lateCandidate_accepted, accepted_readback .none lateCandidate_accepted, by decide⟩

/-- Not everything that is accepted can be read. -/
theorem not_accepted_read : ¬ ∀ (past : List Command) (db : Database), Leads {} past db →
    ∀ (draws : Draws) (candidate : Candidate) (host : Host) (after : Database),
    (db.run draws (.insert candidate)).1 = .ok (some host) →
    (db.run draws (.insert candidate)).2.1 = after →
    after.findById host.id = .ok (some host) ∧ after.findByCode host.code = .ok (some host) ∧
      (after.deleteById host.id).1 = .ok (some host) ∧ ∃ all, after.list = .ok all := by
  intro hall
  obtain ⟨-, -, -, all, hlist⟩ :=
    hall [] {} .none {} lateCandidate lateHost _ lateCandidate_accepted rfl
  have hafter := (stocks_empty.records.inserted lateCandidate_accepted).2
  obtain ⟨fault, hfails⟩ := hafter.list_fails_iff.mpr ⟨lateHost, .head _, by decide⟩
  cases hlist.symm.trans hfails

end Database
end Rendezvous
