import Rendezvous.Proofs.Tables
import Rendezvous.Time.Stamp

/-!
# What a failed command leaves behind

A database command that fails leaves the tables as they were, with one exception: a touch writes the
new time before it reads the row. `Row.reads_iff` says which rows can be read, whoever wrote them,
and `Database.failed_unchanged_iff` what follows for commands that fail.
-/

namespace Rendezvous

/-! ## Instants that cannot be read -/

namespace Stamp

/-- A year that needs a sign begins with it. -/
theorem exists_full_eq_cons {t : Instant} (h : ¬ t.Storable) :
    ∃ sign rest, full t = String.ofList (sign :: rest) ∧ (sign = '-' ∨ sign = '+') := by
  have hyear : yearDigits t.date.year = (if t.date.year < 0 then '-' else '+') ::
      Decimal.paddedDigits 4 t.date.year.natAbs := if_neg h
  have hsign : (if t.date.year < 0 then '-' else '+') = '-' ∨
      (if t.date.year < 0 then '-' else '+') = '+' := by
    split
    · exact .inl rfl
    · exact .inr rfl
  rw [full, wholeDigits, hyear]
  exact ⟨_, _, rfl, hsign⟩

theorem strict_full_of_not_storable {t : Instant} (h : ¬ t.Storable) :
    ∃ flaw, strict (full t) = .error flaw := by
  obtain ⟨sign, rest, hfull, hsign⟩ := exists_full_eq_cons h
  have hbytes : ∃ b tail, Utf8.encode (full t) = b :: tail ∧ Decimal.isDigit b = false := by
    rw [hfull, Utf8.encode, String.toList_ofList, List.flatMap_cons]
    rcases hsign with rfl | rfl
    · exact ⟨0x2D, _, rfl, rfl⟩
    · exact ⟨0x2B, _, rfl, rfl⟩
  obtain ⟨b, tail, hencode, hdigit⟩ := hbytes
  have hno : ¬ (((b :: tail).take 4).length = 4 ∧ ((b :: tail).take 4).all Decimal.isDigit) := by
    rintro ⟨-, hall⟩
    rw [List.take_succ_cons, List.all_cons, hdigit] at hall
    cases hall
  rw [strict, strictBytes, hencode]
  split
  · exact ⟨_, rfl⟩
  · simp only [exactDigits, if_neg hno]
    exact ⟨_, rfl⟩

/-- What is written for an instant is read exactly if the instant lies in the years 0000 to 9999. -/
theorem strict_full_iff (t : Instant) : (∃ read, strict (full t) = .ok read) ↔ t.Storable := by
  constructor
  · rintro ⟨read, hread⟩
    by_cases h : t.Storable
    · exact h
    · obtain ⟨flaw, hflaw⟩ := strict_full_of_not_storable h
      cases hread.symm.trans hflaw
  · exact fun h => ⟨t, strict_full h⟩

end Stamp

/-! ## Rows that can be read -/

namespace Cell

theorem asText_eq_ok {column : Column} {cell : Cell} {text : String} :
    cell.asText column = .ok text ↔ cell = .text text := by
  cases cell <;> simp [asText]

theorem asPort_eq_ok {column : Column} {cell : Cell} {port : Port} :
    cell.asPort column = .ok port ↔ cell = .integer port.val := by
  cases cell with
  | integer n =>
    rw [integer.injEq]
    by_cases h : 0 ≤ n ∧ n < 65536
    · simp only [asPort, Port.ofInt?, dif_pos h, Except.ok.injEq, Fin.ext_iff]
      omega
    · simp only [asPort, Port.ofInt?, dif_neg h, reduceCtorEq, false_iff]
      have hlt := port.isLt
      omega
  | _ => simp only [asPort, reduceCtorEq]

end Cell

namespace Row

/-- All columns but that of the last refresh can be read. -/
structure ReadsBesides (r : Row) : Prop where
  created : ∃ text t, r.createdAt = .text text ∧ Stamp.strict text = .ok t
  id : ∃ text, r.id = .text text
  address : ∃ text, r.address = .text text
  port : ∃ port : Port, r.port = .integer port.val
  code : ∃ text, r.code = .text text

theorem instant_eq_ok {column : Column} {text : String} {t : Instant} :
    instant column text = .ok t ↔ Stamp.strict text = .ok t := by
  unfold instant
  split
  · next read h => rw [h, Except.ok.injEq, Except.ok.injEq]
  · next flaw h => simp only [h, reduceCtorEq]

/-- A row holds a host exactly if each of its columns can be read. -/
theorem reads_iff (r : Row) : (∃ h, r.host = .ok h) ↔
    r.ReadsBesides ∧ ∃ text t, r.updatedAt = .text text ∧ Stamp.strict text = .ok t := by
  constructor
  · rintro ⟨h, hread⟩
    unfold host at hread
    obtain ⟨created, hcreated, hread⟩ := bind_eq_ok hread
    obtain ⟨updated, hupdated, hread⟩ := bind_eq_ok hread
    obtain ⟨id, hid, hread⟩ := bind_eq_ok hread
    obtain ⟨address, haddress, hread⟩ := bind_eq_ok hread
    obtain ⟨port, hport, hread⟩ := bind_eq_ok hread
    obtain ⟨code, hcode, hread⟩ := bind_eq_ok hread
    obtain ⟨t, ht, hread⟩ := bind_eq_ok hread
    obtain ⟨u, hu, -⟩ := bind_eq_ok hread
    rw [Cell.asText_eq_ok] at hcreated hupdated hid haddress hcode
    rw [Cell.asPort_eq_ok] at hport
    rw [instant_eq_ok] at ht hu
    exact ⟨⟨⟨created, t, hcreated, ht⟩, ⟨id, hid⟩, ⟨address, haddress⟩, ⟨port, hport⟩,
      ⟨code, hcode⟩⟩, updated, u, hupdated, hu⟩
  · rintro ⟨⟨⟨created, t, hcreated, ht⟩, ⟨id, hid⟩, ⟨address, haddress⟩, ⟨port, hport⟩,
      ⟨code, hcode⟩⟩, updated, u, hupdated, hu⟩
    refine ⟨⟨id, address, port, code, t, u⟩, ?_⟩
    simp only [host, hcreated, hupdated, hid, haddress, hport, hcode, Cell.asText,
      asPort_ofHost, instant_eq_ok.mpr ht, instant_eq_ok.mpr hu, ok_bind]
    rfl

/-- The row with a new time of refresh, if it is the one with the id. -/
def stamped (id : String) (moment : Instant) (r : Row) : Row :=
  if r.id = .text id then { r with updatedAt := .text (Stamp.full moment) } else r

theorem id_stamped (id : String) (moment : Instant) (r : Row) :
    (r.stamped id moment).id = r.id := by
  unfold stamped
  split <;> rfl

/-- Only a row of the id with another time of refresh is changed. -/
theorem stamped_eq_iff {id : String} {moment : Instant} {r : Row} :
    r.stamped id moment = r ↔ (r.id = .text id → r.updatedAt = .text (Stamp.full moment)) := by
  obtain ⟨rid, address, port, code, createdAt, updatedAt⟩ := r
  unfold stamped
  split
  · next h =>
    rw [Row.mk.injEq]
    simp only [true_and, eq_comm]
    exact ⟨fun he _ => he, fun he => he h⟩
  · next h => exact iff_of_true rfl fun he => absurd he h

/-- The row of the id can be read after it got its new time exactly if its other columns can be read
and the new time can. -/
theorem stamped_reads_iff {id : String} {moment : Instant} {r : Row} (hid : r.id = .text id) :
    (∃ h, (r.stamped id moment).host = .ok h) ↔ r.ReadsBesides ∧ moment.Storable := by
  have hbesides : (r.stamped id moment).ReadsBesides ↔ r.ReadsBesides := by
    unfold stamped
    rw [if_pos hid]
    exact ⟨fun h => ⟨h.created, h.id, h.address, h.port, h.code⟩,
      fun h => ⟨h.created, h.id, h.address, h.port, h.code⟩⟩
  have hupdated : (r.stamped id moment).updatedAt = .text (Stamp.full moment) := by
    unfold stamped
    rw [if_pos hid]
  rw [reads_iff, hbesides, hupdated, ← Stamp.strict_full_iff]
  refine and_congr_right fun _ => ⟨?_, ?_⟩
  · rintro ⟨text, t, he, ht⟩
    cases he
    exact ⟨t, ht⟩
  · rintro ⟨t, ht⟩
    exact ⟨_, t, rfl, ht⟩

end Row

/-! ## Commands that fail -/

namespace Database

variable {db : Database}

def stamped (db : Database) (id : String) (moment : Instant) : Database :=
  { db with hosts := db.hosts.map (·.map (Row.stamped id moment)) }

/-- The command touches an id that has a row, whose time of refresh is another one. -/
def Overwrites (db : Database) (command : Command) : Prop :=
  ∃ id moment rows, command = .touch id moment ∧ db.hosts = some rows ∧
    ∃ r ∈ rows, r.id = .text id ∧ r.updatedAt ≠ .text (Stamp.full moment)

/-- All other commands read before they write. -/
theorem run_unchanged {draws : Draws} {command : Command} {fault : Fault}
    (htouch : ∀ id moment, command ≠ .touch id moment)
    (h : (db.run draws command).1 = .error fault) : (db.run draws command).2.1 = db := by
  have hfound {found : Except Fault (Option Host)} (hf : (db.deleteFound found).1 = .error fault) :
      (db.deleteFound found).2 = db := by
    match found with
    | .ok (some _) => cases hf
    | .ok none | .error _ => rfl
  cases command with
  | insert candidate =>
    simp only [run, insert] at h ⊢
    split at h
    · rfl
    · split at h <;> cases h
  | deleteById id => exact hfound h
  | deleteByCode code => exact hfound h
  | touch id moment => exact absurd rfl (htouch id moment)
  | merge patch =>
    simp only [run, merge] at h ⊢
    split at h
    · rfl
    · cases h
  | _ => rfl

theorem stamped_eq_self_iff {id : String} {moment : Instant} :
    db.stamped id moment = db ↔ ¬ db.Overwrites (.touch id moment) := by
  obtain ⟨hosts, settings⟩ := db
  cases hosts with
  | none =>
    refine iff_of_true rfl ?_
    rintro ⟨id, moment, rows, -, hrows, -⟩
    cases hrows
  | some rows =>
    have hmap : rows.map (Row.stamped id moment) = rows ↔
        ∀ r ∈ rows, r.stamped id moment = r := by
      conv => lhs; rhs; rw [← List.map_id' rows]
      exact List.map_inj_left
    have hself : (Database.mk (some rows) settings).stamped id moment = ⟨some rows, settings⟩ ↔
        rows.map (Row.stamped id moment) = rows := by
      simp only [stamped, Option.map_some, Database.mk.injEq, Option.some.injEq, and_true]
    rw [hself, hmap]
    constructor
    · rintro hsame ⟨_, _, _, ⟨⟩, ⟨⟩, r, hr, hid, hne⟩
      exact hne (Row.stamped_eq_iff.mp (hsame r hr) hid)
    · intro hnot r hr
      refine Row.stamped_eq_iff.mpr fun hid => ?_
      by_cases hne : r.updatedAt = .text (Stamp.full moment)
      · exact hne
      · exact absurd ⟨id, moment, rows, rfl, rfl, r, hr, hid, hne⟩ hnot

/-- The row of an id, if there is one. -/
def rowOf? (db : Database) (id : String) : Option Row :=
  db.hosts.bind fun rows => rows.find? fun r => r.id = .text id

/-- Whatever a touch answers, the tables are stamped afterwards. -/
theorem touch_leaves (id : String) (moment : Instant) :
    (db.touch id moment).2 = db.stamped id moment := by
  obtain ⟨hosts, settings⟩ := db
  cases hosts with
  | none => rfl
  | some rows =>
    simp only [touch, Database.rows]
    split
    · rfl
    · next hany =>
      refine (stamped_eq_self_iff.mpr ?_).symm
      rintro ⟨_, _, _, ⟨⟩, ⟨⟩, r, hr, hid, -⟩
      exact hany (List.any_eq_true.mpr ⟨r, hr, decide_eq_true hid⟩)

theorem queryOne_of_error {during : Activity} {column : Row → Cell} {key : String} {rows : List Row}
    {row : Row} {fault : RowFault} (hrows : db.rows during = .ok rows)
    (hfind : rows.find? (fun r => column r = .text key) = some row)
    (hrow : row.host = .error fault) :
    db.queryOne during column key = .error (.badRow during fault) := by
  rw [queryOne, hrows, ok_bind]
  simp only [hfind, hrow]
  rfl

/-- A query for an id that has a row fails exactly if the row cannot be read. -/
theorem findById_fails_iff {id : String} {r : Row} (h : db.rowOf? id = some r) :
    (∃ fault, db.findById id = .error fault) ↔ ¬ ∃ host, r.host = .ok host := by
  obtain ⟨rows, hrows, hfind⟩ := Option.bind_eq_some_iff.mp h
  have hok : db.rows .queryingById = .ok rows := by rw [Database.rows, hrows]
  cases hread : r.host with
  | ok host =>
    have hfound : db.findById id = .ok (some host) := queryOne_of_some hok hfind hread
    rw [hfound]
    exact iff_of_false (ok_not_error _) fun hnot => hnot ⟨host, rfl⟩
  | error fault =>
    have hfailed : db.findById id = .error (.badRow .queryingById fault) :=
      queryOne_of_error hok hfind hread
    refine iff_of_true ⟨_, hfailed⟩ ?_
    rintro ⟨host, he⟩
    cases he

theorem rowOf?_stamped (id : String) (moment : Instant) :
    (db.stamped id moment).rowOf? id = (db.rowOf? id).map (Row.stamped id moment) := by
  obtain ⟨hosts, settings⟩ := db
  cases hosts with
  | none => rfl
  | some rows =>
    have hcomp : ((fun r : Row => decide (r.id = .text id)) ∘ Row.stamped id moment)
        = fun r => decide (r.id = .text id) := by
      funext r
      rw [Function.comp_apply, Row.id_stamped]
    simp only [rowOf?, stamped, Option.map_some, Option.bind_some, List.find?_map, hcomp]

/-- A touch of an id that has a row fails exactly if another column of the row cannot be read, or
the new time cannot. -/
theorem touch_fails_iff {id : String} {r : Row} (h : db.rowOf? id = some r) (moment : Instant) :
    (∃ fault, (db.touch id moment).1 = .error fault) ↔ ¬ (r.ReadsBesides ∧ moment.Storable) := by
  obtain ⟨rows, hrows, hfind⟩ := Option.bind_eq_some_iff.mp h
  have hid : r.id = .text id := by simpa using List.find?_some hfind
  have hany : (rows.any fun r => r.id = .text id) = true :=
    List.any_eq_true.mpr ⟨r, List.mem_of_find?_eq_some hfind, decide_eq_true hid⟩
  have htouch : (db.touch id moment).1 = (db.stamped id moment).findById id := by
    simp only [touch, Database.rows, stamped, hrows, hany, if_true]
    rfl
  have hstamped : (db.stamped id moment).rowOf? id = some (r.stamped id moment) := by
    rw [rowOf?_stamped, h, Option.map_some]
  rw [htouch, findById_fails_iff hstamped, Row.stamped_reads_iff hid]

/-- How a command can fail, and what it leaves behind. -/
structure FailureLaw (db : Database) (draws : Draws) (command : Command) : Prop where
  /-- After a failure the tables are as they were, unless a time of refresh was overwritten. -/
  unchanged_iff : ∀ fault, (db.run draws command).1 = .error fault →
    ((db.run draws command).2.1 = db ↔ ¬ db.Overwrites command)
  stamped : ∀ id moment, command = .touch id moment →
    (db.run draws command).2.1 = db.stamped id moment
  touch_fails_iff : ∀ id moment r, command = .touch id moment → db.rowOf? id = some r →
    ((∃ fault, (db.touch id moment).1 = .error fault) ↔ ¬ (r.ReadsBesides ∧ moment.Storable))

/-- A command that fails changes nothing, unless it is a touch that overwrites a time of refresh;
and that fails when the row cannot be read afterwards. -/
theorem failed_unchanged_iff (db : Database) (draws : Draws) (command : Command) :
    FailureLaw db draws command where
  unchanged_iff fault h := by
    by_cases htouch : ∃ id moment, command = .touch id moment
    · obtain ⟨id, moment, rfl⟩ := htouch
      rw [← stamped_eq_self_iff, ← touch_leaves]
      rfl
    · refine iff_of_true (run_unchanged (fun id moment he => htouch ⟨id, moment, he⟩) h) ?_
      rintro ⟨id, moment, -, he, -⟩
      exact htouch ⟨id, moment, he⟩
  stamped id moment he := by
    subst he
    exact touch_leaves id moment
  touch_fails_iff id moment r _ hr := db.touch_fails_iff hr moment

/-! ### A touch in the year 10000 -/

def lobbyHost : Host :=
  Candidate.host ⟨"10.0.0.1", .last 65535, "89A5DC", .epoch⟩ "00000000000040008000000000000002"

def lobbyTable : Database := { hosts := some [.ofHost lobbyHost] }

def tenThousand : Instant := (Instant.of? 253402300800 0).getD .epoch

def lateTouch : Command := .touch lobbyHost.id tenThousand

theorem lateTouch_overwrites : lobbyTable.Overwrites lateTouch :=
  ⟨_, _, _, rfl, rfl, _, .head _, rfl, by decide +kernel⟩

theorem lateTouch_fails : ∃ fault, (lobbyTable.run {} lateTouch).1 = .error fault := by
  have hrow : lobbyTable.rowOf? lobbyHost.id = some (.ofHost lobbyHost) := by decide
  exact (touch_fails_iff hrow tenThousand).mpr fun h => absurd h.2 (by decide)

theorem failed_unchanged_iff_late : FailureLaw lobbyTable {} lateTouch ∧
    (∃ fault, (lobbyTable.run {} lateTouch).1 = .error fault) ∧
    (lobbyTable.run {} lateTouch).2.1 ≠ lobbyTable := by
  have hlaw := failed_unchanged_iff lobbyTable {} lateTouch
  obtain ⟨fault, hfault⟩ := lateTouch_fails
  refine ⟨hlaw, ⟨fault, hfault⟩, fun hsame => ?_⟩
  exact (hlaw.unchanged_iff fault hfault).mp hsame lateTouch_overwrites

/-- Not every command that fails leaves the tables as they were. -/
theorem not_failed_unchanged : ¬ ∀ (db : Database) (draws : Draws) (command : Command)
    (fault : Fault), (db.run draws command).1 = .error fault → (db.run draws command).2.1 = db := by
  intro hall
  obtain ⟨fault, hfault⟩ := lateTouch_fails
  have hsame : lobbyTable.stamped lobbyHost.id tenThousand = lobbyTable :=
    (touch_leaves lobbyHost.id tenThousand).symm.trans (hall lobbyTable {} lateTouch fault hfault)
  exact stamped_eq_self_iff.mp hsame lateTouch_overwrites

end Database
end Rendezvous
