import Rendezvous.Proofs.Depths
import Rendezvous.Simulation.Backing

/-!
# The settings of a backing

`Backing.Stands` says that the settings are a document, in memory or in a database, whose worker may
be parked with calls in its queue that nobody waits for any more. Only a merge that is answered
changes them, and then its patch is laid over them. Reads and merges are answered with the document,
but in a database only as long as it is not nested too deep to be read (`Backing.Reads`); once it
is, they all fail.
-/

namespace Rendezvous

/-! ## Commands and the settings -/

def Command.IsOfHosts : Command → Prop
  | .settings | .merge _ => False
  | _ => True

theorem Command.IsOfHosts.ne_merge {command : Command} {patch : Fields} (h : command.IsOfHosts) :
    command ≠ .merge patch := by
  rintro rfl
  exact h

theorem Database.settings_run {command : Command} (h : ∀ patch, command ≠ .merge patch)
    (db : Database) (draws : Draws) : (db.run draws command).2.1.settings = db.settings := by
  cases command with
  | insert candidate =>
    simp only [run, Database.insert]
    split
    · rfl
    · split <;> rfl
  | findById id => rfl
  | findByCode code => rfl
  | deleteById id =>
    simp only [run, Database.deleteById, Database.deleteFound]
    split <;> rfl
  | deleteByCode code =>
    simp only [run, Database.deleteByCode, Database.deleteFound]
    split <;> rfl
  | list => rfl
  | touch id moment =>
    simp only [run, Database.touch]
    split
    · rfl
    · split <;> rfl
  | settings => rfl
  | merge patch => exact absurd rfl (h patch)

theorem Memory.settings_run {command : Command} (h : ∀ patch, command ≠ .merge patch)
    (m : Memory) (draws : Draws) : (m.run draws command).2.1.settings = m.settings := by
  cases command with
  | insert candidate =>
    simp only [run, Memory.insert]
    split
    · rfl
    · split <;> rfl
  | findById id => rfl
  | findByCode code => rfl
  | deleteById id =>
    simp only [run, Memory.deleteById]
    split <;> rfl
  | deleteByCode code =>
    simp only [run, Memory.deleteByCode]
    split
    · rfl
    · simp only [Memory.deleteById]
      split <;> rfl
  | list => rfl
  | touch id moment =>
    simp only [run, Memory.touch]
    split <;> rfl
  | settings => rfl
  | merge patch => exact absurd rfl (h patch)

def Outcome.patch? : {command : Command} → Outcome command → Option Fields
  | .merge patch, .answered _ => some patch
  | _, _ => none

theorem Outcome.patch?_eq_none {command : Command} (h : ∀ patch, command ≠ .merge patch)
    (outcome : Outcome command) : outcome.patch? = none := by
  cases command with
  | merge patch => exact absurd rfl (h patch)
  | _ => cases outcome <;> rfl

def amend (document : Option Json) : Option Fields → Option Json
  | some patch => some (Json.overlay document patch)
  | none => document

/-! ## Databases and workers -/

/-- A patch that a database can write down: a document as readers make them, though of any depth,
whose numbers survive printing. -/
structure Printable (patch : Fields) : Prop where
  ordered : (Json.object patch).Ordered
  numbers : (Json.object patch).NumbersSurvive

/-- The settings of the database are the document: it is read from their text, or printed there and
perhaps nested too deep to be read. -/
structure Database.Stands (db : Database) (document : Option Json) : Prop where
  settings : db.readSettings = .ok document ∨ db.settings = some (document.map Json.print)
  ordered : ∀ doc ∈ document, doc.Ordered
  numbers : ∀ doc ∈ document, doc.NumbersSurvive

theorem Database.readable_of_readSettings {db : Database} {document : Option Json}
    (h : db.readSettings = .ok document) : Json.Readable document := by
  unfold readSettings at h
  split at h
  · cases h
  · cases h
    exact Json.readable_none
  · split at h
    · next hparse =>
      cases h
      exact Json.readable_some.mpr (Json.parse_shaped hparse)
    · cases h

namespace Database.Stands

variable {db : Database} {document : Option Json}

theorem readSettings_eq_ok (h : db.Stands document) (hr : Json.Readable document) :
    db.readSettings = .ok document := by
  rcases h.settings with hread | hprint
  · exact hread
  · cases document with
    | none => simp only [readSettings, hprint, Option.map_none]
    | some doc =>
      have hparse := Json.parse_print (hr doc rfl) (h.numbers doc rfl)
      simp only [readSettings, hprint, Option.map_some, hparse]

/-- A document that is nested too deep is not read. -/
theorem readSettings_eq_error (h : db.Stands document) (hr : ¬ Json.Readable document) :
    ∃ failure, db.readSettings = .error (.badSettings failure) := by
  have hprint := h.settings.resolve_left fun hread => hr (readable_of_readSettings hread)
  cases document with
  | none => exact (hr Json.readable_none).elim
  | some doc =>
    cases hparse : Json.parse doc.print with
    | ok v =>
      have hiff := Json.parse_print_iff (v := v) (h.ordered doc rfl) (h.numbers doc rfl)
      exact (hr (Json.readable_some.mpr (hiff.mp hparse).2)).elim
    | error failure =>
      refine ⟨failure, ?_⟩
      simp only [readSettings, hprint, Option.map_some, hparse]

theorem merge (h : db.Stands document) (hr : Json.Readable document) {patch : Fields}
    (hp : Printable patch) : (db.merge patch).1 = .ok (Json.overlay document patch) ∧
      (db.merge patch).2.Stands (some (Json.overlay document patch)) := by
  have hmerge : db.merge patch = (.ok (Json.overlay document patch),
      { db with settings := some (some (Json.overlay document patch).print) }) := by
    simp only [Database.merge, h.readSettings_eq_ok hr]
  rw [hmerge]
  refine ⟨rfl, .inr rfl, ?_, ?_⟩
  · intro doc hdoc
    exact Option.some.inj hdoc ▸ Json.Ordered.overlay h.ordered hp.ordered
  · intro doc hdoc
    exact Option.some.inj hdoc ▸ Json.NumbersSurvive.overlay h.numbers hp.numbers

/-- Nothing is laid over a document that is nested too deep. -/
theorem merge_unread (h : db.Stands document) (hr : ¬ Json.Readable document) (patch : Fields) :
    ∃ failure, db.merge patch = (.error (.badSettings failure), db) := by
  obtain ⟨failure, hread⟩ := h.readSettings_eq_error hr
  refine ⟨failure, ?_⟩
  simp only [Database.merge, hread]

theorem other (h : db.Stands document) {command : Command} (hc : ∀ patch, command ≠ .merge patch)
    (draws : Draws) : (db.run draws command).2.1.Stands document := by
  refine ⟨?_, h.ordered, h.numbers⟩
  have hsame := settings_run hc db draws
  exact h.settings.imp (fun hread => by rw [← hread, readSettings, readSettings, hsame])
    hsame.trans

theorem run (h : db.Stands document) {command : Command} (draws : Draws)
    (hp : ∀ patch, command = .merge patch → Printable patch) :
    (db.run draws command).2.1.Stands
      (amend document (Outcome.ofResult (db.run draws command).1).patch?) := by
  by_cases hc : ∃ patch, command = .merge patch
  · obtain ⟨patch, rfl⟩ := hc
    by_cases hr : Json.Readable document
    · obtain ⟨hanswer, hafter⟩ := h.merge hr (hp patch rfl)
      simp only [Database.run, hanswer]
      exact hafter
    · obtain ⟨failure, hmerge⟩ := h.merge_unread hr patch
      simp only [Database.run, hmerge]
      exact h
  · have hne : ∀ patch, command ≠ .merge patch := fun patch he => hc ⟨patch, he⟩
    rw [Outcome.patch?_eq_none hne]
    exact h.other hne draws

end Database.Stands

/-- Nobody waits for what is queued. -/
def Worker.Forsaken (w : Worker) : Prop :=
  ∀ caller command, .request caller command ∈ w.queue → caller ∈ w.gone

namespace Worker.Forsaken

variable {w : Worker} (h : w.Forsaken)

include h

theorem hangUp {command : Command} {caller : Nat} {w' : Worker}
    (hsubmit : w.submit command = (some caller, w')) :
    (w'.hangUp caller).Forsaken ∧ (w'.hangUp caller).database = w.database := by
  unfold submit at hsubmit
  split at hsubmit
  · cases hsubmit
  · obtain ⟨hcaller, rfl⟩ := Prod.mk.inj hsubmit
    obtain rfl := Option.some.inj hcaller
    refine ⟨fun other command' hmem => ?_, rfl⟩
    rcases List.mem_append.mp hmem with hmem | hmem
    · exact .tail _ (h other command' hmem)
    · cases List.mem_singleton.mp hmem
      exact .head _

theorem submitStop : w.submitStop.2.Forsaken ∧ w.submitStop.2.database = w.database := by
  unfold Worker.submitStop
  split
  · exact ⟨h, rfl⟩
  · refine ⟨fun caller command hmem => ?_, rfl⟩
    rcases List.mem_append.mp hmem with hmem | hmem
    · exact h caller command hmem
    · cases List.mem_singleton.mp hmem

/-- What is queued is a stop, or a request that nobody waits for: no write is carried out, and no
id is drawn. -/
theorem handleNext (draws : Draws) :
    (w.handleNext draws).2.1.Forsaken ∧ (w.handleNext draws).2.1.database = w.database ∧
      (w.handleNext draws).2.2 = draws := by
  unfold Worker.handleNext
  split
  · exact ⟨h, rfl, rfl⟩
  · exact ⟨fun caller command hmem => (by cases hmem), rfl, rfl⟩
  · rename_i caller command rest hqueue
    have hgone : caller ∈ w.gone := h caller command (hqueue ▸ .head _)
    have hrest : ∀ other command', .request other command' ∈ rest → other ∈ w.gone :=
      fun other command' hmem => h other command' (hqueue ▸ .tail _ hmem)
    dsimp only
    split
    · exact ⟨hrest, rfl, rfl⟩
    · rename_i hkept
      have hread : command.isWrite = false := by simpa [isAbandoned, hgone] using hkept
      cases command with
      | findById | findByCode | list | settings => exact ⟨hrest, rfl, rfl⟩
      | insert | deleteById | deleteByCode | touch | merge => cases hread

theorem handleAll (count : Nat) (draws : Draws) :
    (w.handleAll count draws).2.1.Forsaken ∧ (w.handleAll count draws).2.1.database = w.database ∧
      (w.handleAll count draws).2.2 = draws := by
  induction count generalizing w draws with
  | zero => exact ⟨h, rfl, rfl⟩
  | succ count ih =>
    have hnext := h.handleNext draws
    unfold Worker.handleAll
    split
    · rename_i heq
      rw [heq] at hnext
      exact hnext
    · rename_i heq
      rw [heq] at hnext
      obtain ⟨hforsaken, hdatabase, hdraws⟩ := hnext
      obtain ⟨hafter, hsame, hlast⟩ := ih hforsaken _
      exact ⟨hafter, hsame.trans hdatabase, hlast.trans hdraws⟩

end Worker.Forsaken

/-- The settings of the worker are the document, and nobody waits for what is queued. -/
structure Worker.Stands (w : Worker) (document : Option Json) : Prop where
  database : w.database.Stands document
  left : ∀ caller command, .request caller command ∈ w.queue → caller ∈ w.gone

namespace Worker.Stands

variable {w : Worker} {document : Option Json}

theorem perform (h : w.Stands document) {command : Command} (draws : Draws)
    (hp : ∀ patch, command = .merge patch → Printable patch) :
    (w.perform draws command).2.1.Stands
      (amend document (Outcome.ofResult (w.perform draws command).1).patch?) := by
  unfold Worker.perform
  split
  · cases command <;> exact h
  · exact ⟨h.database.run draws hp, h.left⟩

/-- The same database behind another queue that nobody waits for. -/
theorem of_database (h : w.Stands document) {w' : Worker}
    (hw : w'.Forsaken ∧ w'.database = w.database) : w'.Stands document :=
  ⟨hw.2 ▸ h.database, hw.1⟩

theorem handleAll (h : w.Stands document) (count : Nat) (draws : Draws) :
    (w.handleAll count draws).2.1.Stands document := by
  obtain ⟨hafter, hsame, -⟩ := Forsaken.handleAll h.left count draws
  exact h.of_database ⟨hafter, hsame⟩

end Worker.Stands

/-! ## Backings -/

namespace Backing

def Stands (document : Option Json) : Backing → Prop
  | .memory store => store.settings = document
  | .database worker _ => worker.Stands document

/-- The patch is a document as readers make them; for a database it is one that can be written. -/
def Suits (patch : Fields) : Backing → Prop
  | .memory _ => patch.Sorted
  | .database _ _ => Printable patch

/-- No number of the patch is lost: for a database they survive printing. -/
def KeepsNumbers (patch : Fields) : Backing → Prop
  | .memory _ => True
  | .database _ _ => (Json.object patch).NumbersSurvive

/-- The backing is in memory, or its worker is there and not parked. -/
def Works : Backing → Prop
  | .memory _ => True
  | .database worker parked => parked = false ∧ worker.stopped = false

/-- The backing is in memory, or the document is not nested too deep to be read. -/
def Reads (document : Option Json) : Backing → Prop
  | .memory _ => True
  | .database _ _ => Json.Readable document

variable {b : Backing} {document : Option Json}

theorem Suits.sorted {patch : Fields} (h : b.Suits patch) : patch.Sorted := by
  cases b with
  | memory store => exact h
  | database worker parked => exact h.ordered.sorted

theorem KeepsNumbers.suits {patch : Fields} (h : b.KeepsNumbers patch)
    (hordered : (Json.object patch).Ordered) : b.Suits patch := by
  cases b with
  | memory store => exact hordered.sorted
  | database worker parked => exact ⟨hordered, h⟩

/-- Every call leaves the settings as they were, or lays its patch over them. -/
theorem Stands.run (h : b.Stands document) {command : Command} (draws : Draws)
    (hp : ∀ patch, command = .merge patch → b.Suits patch) :
    (b.run draws command).2.1.Stands (amend document (b.run draws command).1.patch?) := by
  match b with
  | .memory store =>
    by_cases hc : ∃ patch, command = .merge patch
    · obtain ⟨patch, rfl⟩ := hc
      exact congrArg (fun current => some (Json.overlay current patch)) h
    · have hne : ∀ patch, command ≠ .merge patch := fun patch he => hc ⟨patch, he⟩
      rw [Outcome.patch?_eq_none hne]
      exact (Memory.settings_run hne store draws).trans h
  | .database worker false => exact Worker.Stands.perform h draws hp
  | .database worker true =>
    simp only [Backing.run]
    split
    · rename_i worker' hsubmit
      unfold Worker.submit at hsubmit
      split at hsubmit
      · cases hsubmit
        cases command <;> exact h
      · cases hsubmit
    · rename_i caller worker' hsubmit
      have hafter := Worker.Stands.of_database h (Worker.Forsaken.hangUp h.left hsubmit)
      cases command <;> exact hafter

/-- How a call of the settings ends while they are a document: it is answered if the backing works
and can read them, and only then. -/
structure Answers (b : Backing) (document : Option Json) {command : Command}
    (outcome : Outcome command) (answer : command.Answer) : Prop where
  answered : b.Works → b.Reads document → outcome = .answered answer
  only : ∀ other, outcome = .answered other → b.Reads document ∧ other = answer

theorem answers_memory {store : Memory} (document : Option Json) {command : Command}
    {answer : command.Answer} (draws : Draws) (h : (store.run draws command).1 = answer) :
    (Backing.memory store).Answers document
      ((Backing.memory store).run draws command).1 answer where
  answered _ _ := congrArg Outcome.answered h
  only _ hother := ⟨trivial, (Outcome.answered.inj hother).symm.trans h⟩

theorem answers_perform {worker : Worker} {command : Command} {answer : command.Answer}
    (draws : Draws)
    (h : Json.Readable document → (worker.database.run draws command).1 = .ok answer)
    (hunread : ¬ Json.Readable document →
      ∃ failure, (worker.database.run draws command).1 = .error (.badSettings failure)) :
    (Backing.database worker false).Answers document
      ((Backing.database worker false).run draws command).1 answer := by
  simp only [Backing.run, Worker.perform]
  split
  · rename_i hstopped
    refine ⟨fun hworks => ?_, nofun⟩
    rw [hworks.2] at hstopped
    cases hstopped
  · by_cases hr : Json.Readable document
    · rw [h hr]
      exact ⟨fun _ _ => rfl, fun other hother => ⟨hr, (Outcome.answered.inj hother).symm⟩⟩
    · obtain ⟨failure, hfailed⟩ := hunread hr
      rw [hfailed]
      exact ⟨fun _ hreads => (hr hreads).elim, nofun⟩

theorem answers_parked {worker : Worker} (document : Option Json) {command : Command}
    (answer : command.Answer) (draws : Draws) : (Backing.database worker true).Answers document
      ((Backing.database worker true).run draws command).1 answer := by
  refine ⟨fun hworks => Bool.noConfusion hworks.1, fun _ hother => ?_⟩
  simp only [Backing.run] at hother
  split at hother <;> cases hother

theorem Stands.answers_settings (h : b.Stands document) (draws : Draws) :
    b.Answers document (b.run draws .settings).1 document := by
  match b with
  | .memory store => exact answers_memory document draws h
  | .database worker false =>
    exact answers_perform draws h.database.readSettings_eq_ok h.database.readSettings_eq_error
  | .database worker true => exact answers_parked document _ draws

theorem Stands.answers_merge (h : b.Stands document) (draws : Draws) {patch : Fields}
    (hp : b.Suits patch) :
    b.Answers document (b.run draws (.merge patch)).1 (Json.overlay document patch) := by
  match b with
  | .memory store =>
    obtain rfl : store.settings = document := h
    exact answers_memory _ draws rfl
  | .database worker false =>
    refine answers_perform draws (fun hr => (h.database.merge hr hp).1) fun hr => ?_
    obtain ⟨failure, hmerge⟩ := h.database.merge_unread hr patch
    exact ⟨failure, congrArg Prod.fst hmerge⟩
  | .database worker true => exact answers_parked document _ draws

theorem Stands.release (h : b.Stands document) (draws : Draws) :
    (b.release draws).1.Stands document := by
  match b with
  | .memory store => exact h
  | .database worker parked => exact Worker.Stands.handleAll h _ draws

theorem Stands.park (h : b.Stands document) : b.park.Stands document := by
  cases b <;> exact h

theorem Stands.shutdown (h : b.Stands document) (draws : Draws) :
    (b.shutdown draws).2.1.Stands document := by
  match b with
  | .memory store => exact h
  | .database worker parked =>
    have hstop : worker.submitStop.2.Stands document :=
      Worker.Stands.of_database h (Worker.Forsaken.submitStop h.left)
    unfold Backing.shutdown
    dsimp only
    split
    · exact hstop
    · exact Stands.release (b := .database worker.submitStop.2 parked) hstop draws

/-! ## The kind of a backing -/

def SameKind (a b : Backing) : Prop := ∀ patch, a.Suits patch → b.Suits patch

theorem sameKind_run (b : Backing) (draws : Draws) (command : Command) :
    b.SameKind (b.run draws command).2.1 := by
  match b with
  | .memory store => exact fun _ h => h
  | .database worker false => exact fun _ h => h
  | .database worker true =>
    simp only [Backing.run]
    split <;> exact fun _ h => h

theorem sameKind_release (b : Backing) (draws : Draws) : b.SameKind (b.release draws).1 := by
  cases b <;> exact fun _ h => h

theorem sameKind_park (b : Backing) : b.SameKind b.park := by
  cases b <;> exact fun _ h => h

theorem sameKind_shutdown (b : Backing) (draws : Draws) :
    b.SameKind (b.shutdown draws).2.1 := by
  match b with
  | .memory store => exact fun _ h => h
  | .database worker parked =>
    unfold Backing.shutdown
    dsimp only
    split <;> exact fun _ h => h

end Backing

/-! ### A database that keeps a document -/

def Database.keeping (document : Json) : Database :=
  { settings := some (some document.print) }

theorem Database.stands_keeping {document : Json} (ho : document.Ordered)
    (hn : document.NumbersSurvive) : (keeping document).Stands (some document) := by
  refine ⟨.inr rfl, fun doc hdoc => ?_, fun doc hdoc => ?_⟩
  · exact Option.some.inj hdoc ▸ ho
  · exact Option.some.inj hdoc ▸ hn

/-! ### Patches -/

theorem shaped_pair {f g : String × Json} (hlt : f.1 < g.1) (hf : f.2.Shaped (Json.depthLimit - 1))
    (hg : g.2.Shaped (Json.depthLimit - 1)) : (Json.object [f, g]).Shaped Json.depthLimit := by
  refine ⟨List.pairwise_pair.mpr hlt, fun x hx => ?_⟩
  rcases List.mem_pair.mp hx with rfl | rfl
  · exact hf
  · exact hg

theorem numbersSurvive_pair {f g : String × Json} (hf : f.2.NumbersSurvive)
    (hg : g.2.NumbersSurvive) : (Json.object [f, g]).NumbersSurvive := by
  refine Json.numbersSurvive_object fun x hx => ?_
  rcases List.mem_pair.mp hx with rfl | rfl
  · exact hf
  · exact hg

def greeting : Fields := [("motd", .string "hi"), ("slots", .int 8)]

theorem shaped_greeting : (Json.object greeting).Shaped Json.depthLimit :=
  shaped_pair (by decide) trivial trivial

theorem printable_greeting : Printable greeting :=
  ⟨⟨_, shaped_greeting⟩, numbersSurvive_pair (Json.numbersSurvive_string "hi")
    (Json.numbersSurvive_numeral (n := .int 8) rfl)⟩

/-- As many arrays as may be open at once, and the object around them. -/
def deepPatch : Fields := [("motd", Json.nested 126)]

theorem printable_deepPatch : Printable deepPatch where
  ordered := by
    refine ⟨128, List.pairwise_singleton _ _, fun f hf => ?_⟩
    obtain rfl := List.mem_singleton.mp hf
    exact Json.shaped_nested.mpr (by decide)
  numbers := by
    refine Json.numbersSurvive_object fun f hf => ?_
    obtain rfl := List.mem_singleton.mp hf
    exact Json.numbersSurvive_nested 126

theorem not_readable_deepPatch : ¬ Json.Readable (some (.object deepPatch)) := by
  intro h
  have hshaped := (Json.readable_some.mp h).2 _ (.head _)
  exact absurd (Json.shaped_nested.mp hshaped) (by decide)

end Rendezvous
