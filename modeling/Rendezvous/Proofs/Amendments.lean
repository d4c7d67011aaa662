import Rendezvous.Proofs.Marks
import Rendezvous.Proofs.Standing
import Rendezvous.Proofs.Unions

/-!
# The settings in every run

However many demands go on side by side over either backing, the settings are the union of the
patches that were laid down, in the order in which they were: `BackingSystem.run_amended`. A
database cannot read them any more once a patch is nested too deep, and from then on refuses to read
them or to lay anything over them.
-/

namespace Rendezvous

/-! ## What runs did with the settings -/

def Move.patch? : Move → Option Fields
  | .asks _ command answer => (Outcome.answered answer : Outcome command).patch?
  | _ => none

def Move.mark? : Move → Option Mark
  | .asks _ command answer => (Outcome.answered answer : Outcome command).mark?
  | _ => none

def patchesOf (moves : List Move) : List Fields := moves.filterMap Move.patch?

def marksBy (who : Nat) (moves : List Move) : List Mark := doneBy Move.mark? who moves

section

variable {moves : List Move} {move : Move} {who : Nat}

theorem patchesOf_append (moves : List Move) (move : Move) :
    patchesOf (moves ++ [move]) = patchesOf moves ++ move.patch?.toList :=
  filterMap_concat _ _ _

theorem documentOf_patchesOf_append (moves : List Move) (move : Move) :
    documentOf (patchesOf (moves ++ [move]))
      = amend (documentOf (patchesOf moves)) move.patch? := by
  rw [patchesOf_append]
  cases move.patch? with
  | none => rw [Option.toList_none, List.append_nil, amend]
  | some patch => rw [Option.toList_some, documentOf_append, amend]

theorem Outcome.patch?_eq_some {command : Command} {outcome : Outcome command} {patch : Fields}
    (h : outcome.patch? = some patch) : command = .merge patch := by
  cases command with
  | merge patch' =>
    cases outcome with
    | answered document => rw [Option.some.inj h]
    | failed | timedOut => cases h
  | _ => cases outcome <;> cases h

theorem Outcome.patch?_of_isMiss {command : Command} {outcome : Outcome command}
    (h : outcome.IsMiss) : outcome.patch? = none := by
  cases outcome with
  | answered answer => exact h.elim
  | failed | timedOut => cases command <;> rfl

theorem Move.patch?_eq_some {patch : Fields} (h : move.patch? = some patch) :
    ∃ who document, move = .asks who (.merge patch) document := by
  cases move with
  | asks who command answer =>
    obtain rfl := Outcome.patch?_eq_some h
    exact ⟨who, answer, rfl⟩
  | _ => cases h

theorem asks_of_laid {patch : Fields} {document : Json}
    (h : .laid patch document ∈ marksBy who moves) : .asks who (.merge patch) document ∈ moves := by
  obtain ⟨move, hmem, hwho, hmark⟩ := (mem_doneBy _).mp h
  cases move with
  | asks other command answer =>
    cases hwho
    cases command <;> cases hmark
    exact hmem
  | _ => cases hmark

theorem asks_of_read {document : Option Json} (h : .read document ∈ marksBy who moves) :
    .asks who .settings document ∈ moves := by
  obtain ⟨move, hmem, hwho, hmark⟩ := (mem_doneBy _).mp h
  cases move with
  | asks other command answer =>
    cases hwho
    cases command <;> cases hmark
    exact hmem
  | _ => cases hmark

end

/-! ## Demands under way -/

/-- The backing can keep what the demand lays down. A body that came over HTTP was read, so that
nothing but its numbers can be lost. -/
def Demand.Suits (guard : Guard) (b : Backing) (demand : Demand) : Prop :=
  ∀ patch, demand.Lays guard patch → match demand with
    | .http _ => b.KeepsNumbers patch
    | _ => b.Suits patch

theorem Demand.Suits.suits {guard : Guard} {b : Backing} {demand : Demand}
    (h : demand.Suits guard b) {patch : Fields} (hlays : demand.Lays guard patch) :
    b.Suits patch := by
  have hpatch := h patch hlays
  cases demand with
  | http request =>
    obtain ⟨brings, -, hobject⟩ := hlays
    cases brings with
    | http update carried =>
      exact hpatch.suits ⟨_, Json.parseFirst_fields_shaped carried.parsed hobject⟩
  | _ => exact hpatch

namespace BackingSystem

def Suited (guard : Guard) (moves : List Move) (b : Backing) : Prop :=
  ∀ demand, .starts demand ∈ moves → demand.Suits guard b

/-- The demand at a place waits for a call to end. -/
def Awaits (s : BackingSystem) (who : Nat) (command : Command) : Prop :=
  ∃ demand limit next, s.threads[who]? = some ⟨demand, .going (.call command limit next)⟩

variable {terms : Terms} {guard : Guard} {start s s' : BackingSystem} {trace : List Transition}
  {who : Nat}

theorem Suited.of_append {moves more : List Move} {b : Backing}
    (h : Suited guard (moves ++ more) b) : Suited guard moves b :=
  fun demand hstarts => h demand (List.mem_append_left _ hstarts)

/-- A demand that has ended owns up to what it did with the settings, unless it missed something. -/
theorem Runs.owns (h : start.Run terms guard trace s) (hs : start.threads = []) {demand : Demand}
    {reply : Reply} (hw : s.threads[who]? = some ⟨demand, .going (.done reply)⟩)
    (hintime : InTime who trace) : demand.Owns guard reply (marksBy who (movesOf trace)) := by
  obtain ⟨missed, c, hrun, hkeeps, htime⟩ := h.course hs hw
  have hmarks : marksBy who (movesOf trace) = (c.did Outcome.mark?).toList := by
    refine hrun.doneBy_eq (f := Outcome.mark?) (fun _ => rfl) (fun hunserved => ?_)
      (fun _ _ => rfl) ?_ (htime hintime)
    · cases hunserved with
      | missed hmiss => exact Outcome.mark?_of_isMiss hmiss
      | feigned hfeigned _ => cases hfeigned
    · intro moves move late c c' _ step hne
      cases step with
      | asks => exact absurd rfl (hne _ _)
      | _ => rfl
  rw [hmarks]
  exact hkeeps.2.tells.owns

/-- What a demand is about to merge, it lays down. -/
theorem Runs.lays (h : start.Run terms guard trace s) (hs : start.threads = []) {demand : Demand}
    {patch : Fields} {limit : Nat} {next : Outcome (.merge patch) → Interaction Reply}
    (hw : s.threads[who]? = some ⟨demand, .going (.call (.merge patch) limit next)⟩) :
    demand.Lays guard patch := by
  obtain ⟨missed, c, -, hkeeps, -⟩ := h.course hs hw
  exact hkeeps.2.1.allows.lays

/-- The settings of the system are the union of the patches, and those suit its backing. -/
structure Settled (start : BackingSystem) (moves : List Move) (s : BackingSystem) : Prop where
  stands : s.backing.Stands (documentOf (patchesOf moves))
  sorted : ∀ patch ∈ patchesOf moves, patch.Sorted
  kind : start.backing.SameKind s.backing

theorem IsNew.settled (h : start.IsNew) : Settled start [] start := by
  cases h with
  | memory draws => exact ⟨rfl, nofun, fun _ h => h⟩
  | database draws =>
    have hstands : ({ database := {} } : Worker).Stands none :=
      ⟨⟨.inl rfl, nofun, nofun⟩, fun _ _ hmem => (List.not_mem_nil hmem).elim⟩
    exact ⟨hstands, nofun, fun _ h => h⟩

namespace Settled

variable {moves : List Move} {move : Move}

theorem document (h : Settled start moves s) :
    Document (patchesOf moves) (documentOf (patchesOf moves)) :=
  document_documentOf h.sorted

theorem still (h : Settled start moves s) (hm : move.patch? = none)
    (hsame : s'.backing = s.backing) : Settled start (moves ++ [move]) s' := by
  refine ⟨?_, fun patch hpatch => ?_, hsame ▸ h.kind⟩
  · rw [documentOf_patchesOf_append, hm, hsame]
    exact h.stands
  · rw [patchesOf_append, hm, Option.toList_none, List.append_nil] at hpatch
    exact h.sorted patch hpatch

theorem serves (h : Settled start moves s) (command : Command)
    (hp : ∀ patch, command = .merge patch → s.backing.Suits patch)
    (hm : move.patch? = (s.backing.run s.draws command).1.patch?)
    (hrun : s'.backing = (s.backing.run s.draws command).2.1) :
    Settled start (moves ++ [move]) s' := by
  refine ⟨?_, fun patch hpatch => ?_, fun patch hpatch => ?_⟩
  · rw [documentOf_patchesOf_append, hm, hrun]
    exact h.stands.run s.draws hp
  · rw [patchesOf_append, hm] at hpatch
    rcases List.mem_append.mp hpatch with hpatch | hpatch
    · exact h.sorted patch hpatch
    · exact (hp patch (Outcome.patch?_eq_some (Option.mem_toList.mp hpatch))).sorted
  · rw [hrun]
    exact Backing.sameKind_run _ _ _ patch (h.kind patch hpatch)

theorem turns (h : Settled start moves s) {old new : Stage} {late : Bool} {x : Backing × Draws}
    (hturns : old.Turns (Backing.rules false) who (s.backing, s.draws) move late x new)
    (hp : ∀ patch limit next, old = .going (.call (.merge patch) limit next) →
      s.backing.Suits patch) (hx : s'.backing = x.1) : Settled start (moves ++ [move]) s' := by
  cases hturns with
  | reads | notes | misses | sweeps | spares | returns => exact h.still rfl hx
  | draws next hdrawn => exact h.still rfl (hx.trans hdrawn)
  | asks limit next late hrun =>
    refine h.serves _ (fun patch he => ?_) (congrArg Outcome.patch? hrun).symm hx
    subst he
    exact hp patch limit next rfl
  | @fails command limit next hmiss =>
    refine h.serves command (fun patch he => ?_) (Outcome.patch?_of_isMiss hmiss).symm hx
    subst he
    exact hp patch limit next rfl
  | evicts next i late hslot hrun =>
    exact h.serves (.deleteById _) nofun (congrArg Outcome.patch? hrun).symm hx
  | stalls next i hslot hmiss =>
    exact h.serves (.deleteById _) nofun (Outcome.patch?_of_isMiss hmiss).symm hx

theorem run (hnew : start.IsNew) (h : start.Run terms guard trace s)
    (hsuited : Suited guard (movesOf trace) start.backing) : Settled start (movesOf trace) s := by
  induction h with
  | nil => exact hnew.settled
  | @snoc trace move? late s s' run step ih =>
    rw [movesOf_append] at hsuited ⊢
    have hpast := ih hsuited.of_append
    cases step with
    | acts hstep =>
      cases hstep with
      | starts demand => exact hpast.still rfl rfl
      | goes who hw hturns =>
        refine hpast.turns hturns (fun patch limit next he => ?_) rfl
        subst he
        have hstarts := hsuited.of_append _ (run.started hnew.threads hw)
        exact hpast.kind patch (hstarts.suits (run.lays hnew.threads hw))
    | parks =>
      rw [Option.toList_none, List.append_nil]
      exact ⟨hpast.stands.park, hpast.sorted, fun patch hpatch =>
        Backing.sameKind_park _ patch (hpast.kind patch hpatch)⟩
    | releases =>
      rw [Option.toList_none, List.append_nil]
      exact ⟨hpast.stands.release _, hpast.sorted, fun patch hpatch =>
        Backing.sameKind_release _ _ patch (hpast.kind patch hpatch)⟩
    | stops =>
      rw [Option.toList_none, List.append_nil]
      exact ⟨hpast.stands.shutdown _, hpast.sorted, fun patch hpatch =>
        Backing.sameKind_shutdown _ _ patch (hpast.kind patch hpatch)⟩

end Settled

/-! ## The settings as they are told -/

/-- What a demand that has ended with a reply did with the settings, and how they stood then. -/
structure Reported (guard : Guard) (moves : List Move) (who : Nat) (demand : Demand)
    (reply : Reply) : Prop where
  owns : demand.Owns guard reply (marksBy who moves)
  laid : ∀ {patch : Fields} {document : Json}, .laid patch document ∈ marksBy who moves →
    ∃ before after, moves = before ++ .asks who (.merge patch) document :: after ∧
      Document (patchesOf before ++ [patch]) (some document)
  read : ∀ {document : Option Json}, .read document ∈ marksBy who moves →
    ∃ before after, moves = before ++ .asks who .settings document :: after ∧
      Document (patchesOf before) document

/-- The settings are the union of the patches that were laid down: this is what reads are told, what
updates are told, and what demands have been told that are over and heard of all that they did. In a
database reads and updates fail when the settings are nested too deep. -/
structure Amended (guard : Guard) (trace : List Transition) (s : BackingSystem) : Prop where
  read : ∀ {who : Nat}, s.Awaits who .settings → ∃ document,
    Document (patchesOf (movesOf trace)) document ∧
      s.backing.Answers document (s.backing.run s.draws .settings).1 document
  laid : ∀ {who : Nat} {patch : Fields}, s.Awaits who (.merge patch) → ∃ current document,
    Document (patchesOf (movesOf trace)) current ∧
      Document (patchesOf (movesOf trace) ++ [patch]) (some document) ∧
        s.backing.Answers current (s.backing.run s.draws (.merge patch)).1 document
  /-- Every patch was brought with the token by a demand. -/
  brought : ∀ patch ∈ patchesOf (movesOf trace), ∃ demand,
    .starts demand ∈ movesOf trace ∧ demand.Lays guard patch
  told : ∀ {who : Nat} {demand : Demand} {reply : Reply},
    s.threads[who]? = some ⟨demand, .going (.done reply)⟩ → InTime who trace →
      Reported guard (movesOf trace) who demand reply

namespace Runs

/-- A move of a run that is an answered call, with what came before it. -/
theorem asks_at (h : start.Run terms guard trace s) {command : Command} {answer : command.Answer}
    (hm : .asks who command answer ∈ movesOf trace) : ∃ past t later, trace = past ++ t :: later ∧
      start.Run terms guard past t.before ∧ t.before.Awaits who command ∧
      (t.before.backing.run t.before.draws command).1 = .answered answer ∧
      movesOf trace = movesOf past ++ .asks who command answer :: movesOf later := by
  obtain ⟨t, ht, hmove⟩ := List.mem_filterMap.mp hm
  obtain ⟨past, later, rfl⟩ := List.append_of_mem ht
  obtain ⟨run, step⟩ := h.split rfl
  rw [hmove] at step
  obtain ⟨demand, limit, next, hw, hrun, -⟩ := step.step.asks_inv
  have hmoves : movesOf (past ++ t :: later)
      = movesOf past ++ .asks who command answer :: movesOf later := by
    rw [movesOf, List.filterMap_append, List.filterMap_cons_some hmove]
    rfl
  exact ⟨past, t, later, rfl, run, ⟨demand, limit, next, hw⟩, hrun, hmoves⟩

end Runs

section

variable (hnew : start.IsNew) (h : start.Run terms guard trace s)
  (hsuited : Suited guard (movesOf trace) start.backing)

include hnew h hsuited

/-- What a read comes to that reaches the backing. -/
theorem Runs.read : ∃ document, Document (patchesOf (movesOf trace)) document ∧
    s.backing.Answers document (s.backing.run s.draws .settings).1 document :=
  have hsettled := Settled.run hnew h hsuited
  ⟨_, hsettled.document, hsettled.stands.answers_settings s.draws⟩

/-- What a merge comes to that reaches the backing. -/
theorem Runs.laid {patch : Fields} (hw : s.Awaits who (.merge patch)) :
    ∃ current document, Document (patchesOf (movesOf trace)) current ∧
      Document (patchesOf (movesOf trace) ++ [patch]) (some document) ∧
        s.backing.Answers current (s.backing.run s.draws (.merge patch)).1 document := by
  have hsettled := Settled.run hnew h hsuited
  obtain ⟨demand, limit, next, hw⟩ := hw
  have hsuits : s.backing.Suits patch := by
    have hdemand := hsuited _ (h.started hnew.threads hw)
    exact hsettled.kind patch (hdemand.suits (h.lays hnew.threads hw))
  exact ⟨_, _, hsettled.document, hsettled.document.overlay hsuits.sorted,
    hsettled.stands.answers_merge s.draws hsuits⟩

/-- However many demands go on side by side from an empty store on, the settings are the union of
the patches that authorized updates have laid down, in the order in which they did; nothing else
changes them. -/
theorem run_amended : Amended guard trace s where
  read _ := h.read hnew hsuited
  laid := h.laid hnew hsuited
  brought patch hpatch := by
    obtain ⟨move, hmem, hm⟩ := List.mem_filterMap.mp hpatch
    obtain ⟨who, document, rfl⟩ := Move.patch?_eq_some hm
    obtain ⟨past, t, later, -, run, ⟨demand, limit, next, hw⟩, -, hmoves⟩ := h.asks_at hmem
    refine ⟨demand, ?_, run.lays hnew.threads hw⟩
    rw [hmoves]
    exact List.mem_append_left _ (run.started hnew.threads hw)
  told {who demand reply} hw hintime := by
    refine ⟨h.owns hnew.threads hw hintime, fun hmark => ?_, fun hmark => ?_⟩
    · obtain ⟨past, t, later, -, run, hawaits, hanswer, hmoves⟩ := h.asks_at (asks_of_laid hmark)
      have hpast : Suited guard (movesOf past) start.backing := (hmoves ▸ hsuited).of_append
      obtain ⟨_, document, -, hdocument, hanswers⟩ := run.laid hnew hpast hawaits
      exact ⟨movesOf past, movesOf later, hmoves, (hanswers.only _ hanswer).2 ▸ hdocument⟩
    · obtain ⟨past, t, later, -, run, -, hanswer, hmoves⟩ := h.asks_at (asks_of_read hmark)
      have hpast : Suited guard (movesOf past) start.backing := (hmoves ▸ hsuited).of_append
      obtain ⟨document, hdocument, hanswers⟩ := run.read hnew hpast
      exact ⟨movesOf past, movesOf later, hmoves, (hanswers.only _ hanswer).2 ▸ hdocument⟩

end

/-! ## Two updates and a read -/

def keeping (document : Json) (callers : Nat) : Backing :=
  .database { database := .keeping document, callers } false

theorem keeping_stands {document : Json} (ho : document.Ordered) (hn : document.NumbersSurvive)
    (callers : Nat) : (keeping document callers).Stands (some document) where
  database := Database.stands_keeping ho hn
  left _ _ hmem := (List.not_mem_nil hmem).elim

theorem keeping_run {document : Json} (hs : document.Shaped Json.depthLimit)
    (hn : document.NumbersSurvive) (callers : Nat) :
    (keeping document callers).run {} .settings =
        (.answered (some document), keeping document (callers + 1), {}) ∧
      ∀ patch, (keeping document callers).run {} (.merge patch) =
        (.answered (Json.overlay (some document) patch),
          keeping (Json.overlay (some document) patch) (callers + 1), {}) := by
  have hread : (Database.keeping document).readSettings = .ok (some document) :=
    (Database.stands_keeping ⟨_, hs⟩ hn).readSettings_eq_ok (Json.readable_some.mpr hs)
  constructor
  · simp only [keeping, Backing.run, Worker.perform, Database.run, hread]
    rfl
  · intro patch
    simp only [keeping, Backing.run, Worker.perform, Database.run, Database.merge, hread]
    rfl

def players : Fields := [("players", .int 3), ("slots", .int 9)]

def greetedPlayers : Fields := [("motd", .string "hi"), ("players", .int 3), ("slots", .int 8)]

theorem shaped_players : (Json.object players).Shaped Json.depthLimit :=
  shaped_pair (by decide) trivial trivial

theorem printable_players : Printable players :=
  ⟨⟨_, shaped_players⟩, numbersSurvive_pair (Json.numbersSurvive_numeral (n := .int 3) rfl)
    (Json.numbersSurvive_numeral (n := .int 9) rfl)⟩

def fourDemands : List Demand :=
  [.updateSettings (some "letmein") (.object greeting),
    .updateSettings (some "letmein") (.object players),
    .updateSettings (some "letmeout") (.object []), .readSettings]

theorem fourDemands_suit (worker : Worker) :
    ∀ demand ∈ fourDemands, demand.Suits Api.letmein (.database worker false) := by
  intro demand hmem patch hlays
  obtain ⟨brings, authorized, object⟩ := hlays
  simp only [fourDemands, List.mem_cons, List.not_mem_nil, or_false] at hmem
  rcases hmem with rfl | rfl | rfl | rfl
  · cases brings with
    | call =>
      cases object
      exact printable_greeting
  · cases brings with
    | call =>
      cases object
      exact printable_players
  · cases brings with
    | call => exact absurd authorized (by decide)
  · cases brings

def newDatabase : BackingSystem := { backing := .database { database := {} } false }

theorem fourDemands_run : ∃ trace s, Run {} Api.letmein newDatabase trace s ∧
    (∀ demand, .starts demand ∈ movesOf trace → demand ∈ fourDemands) ∧
    (∀ t ∈ trace, t.late = false) ∧ patchesOf (movesOf trace) = [players, greeting] ∧
    s.threads[3]? =
      some ⟨.readSettings, .going (.done (.document (some (.object greetedPlayers))))⟩ := by
  have hplayers : newDatabase.backing.run {} (.merge players) =
      (.answered (.object players), keeping (.object players) 1, {}) := rfl
  have hgreeting := (keeping_run shaped_players printable_players.numbers 1).2 greeting
  have hs : (Json.overlay (some (.object players)) greeting).Shaped Json.depthLimit :=
    .overlay (fun doc h => Option.some.inj h ▸ shaped_players) shaped_greeting
  have hn : (Json.overlay (some (.object players)) greeting).NumbersSurvive :=
    .overlay (fun doc h => Option.some.inj h ▸ printable_players.numbers) printable_greeting.numbers
  have h0 : Run {} Api.letmein newDatabase [] newDatabase := .nil
  have h1 := h0.snoc (.starts _ (.updateSettings (some "letmein") (.object greeting)))
  have h2 := h1.snoc (.starts _ (.updateSettings (some "letmein") (.object players)))
  have h3 := h2.snoc (.starts _ (.updateSettings (some "letmeout") (.object [])))
  have h4 := h3.snoc (.starts _ .readSettings)
  have h5 := h4.snoc (.asks 1 rfl hplayers)
  have h6 := h5.snoc (.asks 0 rfl hgreeting)
  have h7 := h6.snoc (.asks 3 rfl (keeping_run hs hn 2).1)
  refine ⟨_, _, h7, fun demand hstarts => ?_, ?_, rfl, rfl⟩
  · simpa [movesOf, fourDemands] using hstarts
  · simp

theorem run_amended_greeting : ∃ trace s, newDatabase.IsNew ∧
    Run {} Api.letmein newDatabase trace s ∧
    Suited Api.letmein (movesOf trace) newDatabase.backing ∧ InTime 3 trace ∧
    patchesOf (movesOf trace) = [players, greeting] ∧ Amended Api.letmein trace s ∧
    s.threads[3]? =
      some ⟨.readSettings, .going (.done (.document (some (.object greetedPlayers))))⟩ := by
  obtain ⟨trace, s, hrun, hstarted, hlate, hpatches, hread⟩ := fourDemands_run
  have hnew : newDatabase.IsNew := .database {}
  have hsuited : Suited Api.letmein (movesOf trace) newDatabase.backing :=
    fun demand hstarts => fourDemands_suit _ demand (hstarted demand hstarts)
  exact ⟨trace, s, hnew, hrun, hsuited, fun t ht _ _ _ => hlate t ht, hpatches,
    run_amended hnew hrun hsuited, hread⟩

/-! ### An update that is nested too deep -/

theorem deepPatch_run : ∃ trace s, Run {} Api.letmein newDatabase trace s ∧
    Suited Api.letmein (movesOf trace) newDatabase.backing ∧ (∀ t ∈ trace, t.late = false) ∧
    s.backing = keeping (.object deepPatch) 1 ∧ s.Awaits 1 .settings := by
  have hlaid : newDatabase.backing.run {} (.merge deepPatch) =
      (.answered (.object deepPatch), keeping (.object deepPatch) 1, {}) := rfl
  have h0 : Run {} Api.letmein newDatabase [] newDatabase := .nil
  have h1 := h0.snoc (.starts _ (.updateSettings (some "letmein") (.object deepPatch)))
  have h2 := h1.snoc (.starts _ .readSettings)
  have h3 := h2.snoc (.asks 0 rfl hlaid)
  refine ⟨_, _, h3, fun demand hstarts patch hlays => ?_, by simp, rfl, _, _, _, rfl⟩
  obtain ⟨brings, -, object⟩ := hlays
  have hdemand : demand = .updateSettings (some "letmein") (.object deepPatch) ∨
      demand = .readSettings := by simpa [movesOf] using hstarts
  rcases hdemand with rfl | rfl
  · cases brings with
    | call =>
      cases object
      exact printable_deepPatch
  · cases brings

/-- Not every read that reaches a working database is answered: behind a deep update it fails,
though the update was answered, and in time. -/
theorem not_every_read_answered : ¬ ∀ trace s, Run {} Api.letmein newDatabase trace s →
    Suited Api.letmein (movesOf trace) newDatabase.backing → (∀ t ∈ trace, t.late = false) →
      s.backing.Works → ∀ who, s.Awaits who .settings →
        ∃ document, Document (patchesOf (movesOf trace)) document ∧
          (s.backing.run s.draws .settings).1 = .answered document := by
  intro h
  obtain ⟨trace, s, hrun, hsuited, hlate, hbacking, hawaits⟩ := deepPatch_run
  have hworks : s.backing.Works := hbacking ▸ ⟨rfl, rfl⟩
  obtain ⟨document, -, hanswer⟩ := h trace s hrun hsuited hlate hworks 1 hawaits
  have hstands := keeping_stands printable_deepPatch.ordered printable_deepPatch.numbers 1
  rw [hbacking] at hanswer
  exact not_readable_deepPatch ((hstands.answers_settings s.draws).only _ hanswer).1

end BackingSystem
end Rendezvous
