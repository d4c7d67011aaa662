import Mathlib.Logic.Function.Basic
import Rendezvous.Proofs.Stock

/-!
# The tries of a registration

`Interaction.perform` follows an interaction by a script, which says what the clock shows, what is
drawn and how calls end, each in turn. `Directory.Ends` tells how a registration goes through join
codes: `Directory.register_tries` proves it of every script, and that every run is by one.
-/

namespace Rendezvous

/-! ## Scripts -/

/-- What an interaction asks of the world, with what it hears. -/
inductive Exchange
  | reads (now : Instant)
  | draws (uuid : Uuid)
  | calls (command : Command) (limit : Nat) (outcome : Outcome command)
  | evicts (hosts : List Host) (limit : Nat) (removed : List Bool)
  | notes (event : Event)

def Exchange.isCall : Exchange → Bool
  | .calls _ _ _ => true
  | _ => false

/-- An insert is answered as stores do: with the candidate under some id, if with a host. -/
def Outcome.IsFaithful : {command : Command} → Outcome command → Prop
  | .insert candidate, .answered (some host) => host = candidate.host host.id
  | _, _ => True

/-- What the world answers, requests of each kind in turn. -/
structure Script where
  clock : Nat → Instant
  draws : Nat → Uuid
  outcomes : Nat → (command : Command) → Outcome command
  evictions : Nat → List Host → List Bool

namespace Script

variable (s : Script)

def afterReading : Script := { s with clock := fun n => s.clock (n + 1) }

def afterDraw : Script := { s with draws := fun n => s.draws (n + 1) }

def afterCall : Script := { s with outcomes := fun n => s.outcomes (n + 1) }

def afterEviction : Script := { s with evictions := fun n => s.evictions (n + 1) }

/-- The script behind one try of a join code. -/
def afterTry : Script := s.afterReading.afterDraw.afterCall

def Faithful : Prop := ∀ k command, (s.outcomes k command).IsFaithful

end Script

def Interaction.perform {α : Type} : Interaction α → Script → List Exchange × α
  | .done value, _ => ([], value)
  | .readClock next, s =>
    let (later, value) := (next (s.clock 0)).perform s.afterReading
    (.reads (s.clock 0) :: later, value)
  | .draw next, s =>
    let (later, value) := (next (s.draws 0)).perform s.afterDraw
    (.draws (s.draws 0) :: later, value)
  | .call command limit next, s =>
    let outcome := s.outcomes 0 command
    let (later, value) := (next outcome).perform s.afterCall
    (.calls command limit outcome :: later, value)
  | .evict hosts limit next, s =>
    let removed := s.evictions 0 hosts
    let (later, value) := (next removed).perform s.afterEviction
    (.evicts hosts limit removed :: later, value)
  | .log event next, s =>
    let (later, value) := next.perform s
    (.notes event :: later, value)

/-! ## Runs are by scripts -/

/-- A host that is answered to an insert is the candidate under some id. -/
theorem Backing.host_of_insert {b : Backing} {draws : Draws} {candidate : Candidate} {host : Host}
    (h : (b.run draws (.insert candidate)).1 = .answered (some host)) :
    host = candidate.host host.id := by
  match b with
  | .memory store =>
    have hanswer : (store.insert candidate draws).1 = some host := Outcome.answered.inj h
    unfold Memory.insert at hanswer
    split at hanswer
    · cases hanswer
    · split at hanswer
      · cases hanswer
      · cases hanswer
        rfl
  | .database worker true =>
    simp only [Backing.run] at h
    split at h <;> cases h
  | .database worker false =>
    simp only [Backing.run, Worker.perform] at h
    split at h
    · cases h
    · have hanswer := Outcome.ofResult_eq_answered h
      simp only [Database.run, Database.insert] at hanswer
      split at hanswer
      · cases hanswer
      · split at hanswer
        · cases hanswer
        · cases hanswer
          rfl

theorem World.isFaithful_call (w : World) (command : Command) (limit : Nat) :
    (w.call command limit).1.IsFaithful := by
  cases command with
  | insert candidate =>
    simp only [World.call, World.land]
    split
    · trivial
    · generalize he : ((w.launch _ limit).2.waitUntil _).reach _ = reached
      obtain ⟨outcome, after⟩ := reached
      have hrun := congrArg Prod.fst he
      cases outcome with
      | answered host =>
        cases host with
        | none => trivial
        | some host => exact Backing.host_of_insert hrun
      | failed fault => trivial
      | timedOut => trivial
    · trivial
    · trivial
  | _ => trivial

namespace Script

def silent : Script where
  clock _ := .epoch
  draws _ := .ofBlock ⟨List.replicate 16 0, rfl⟩
  outcomes _ _ := .timedOut
  evictions _ _ := []

theorem silent_faithful : silent.Faithful := fun _ command => by cases command <;> trivial

open Classical in
/-- The script with an outcome for one call more, which is made before the others. -/
noncomputable def withCall (s : Script) (command : Command) (outcome : Outcome command) : Script :=
  { s with outcomes := fun
    | 0 => Function.update (fun _ => .timedOut) command outcome
    | k + 1 => s.outcomes k }

theorem withCall_outcome (s : Script) (command : Command) (outcome : Outcome command) :
    (s.withCall command outcome).outcomes 0 command = outcome := by
  simp only [withCall, Function.update_self]

theorem withCall_outcome_ne (s : Script) {command other : Command} (outcome : Outcome command)
    (h : other ≠ command) : (s.withCall command outcome).outcomes 0 other = .timedOut := by
  simp only [withCall, Function.update, dif_neg h]

theorem Faithful.withCall {s : Script} (h : s.Faithful) {command : Command}
    {outcome : Outcome command} (ho : outcome.IsFaithful) :
    (s.withCall command outcome).Faithful := by
  intro k other
  cases k with
  | succ k => exact h k other
  | zero =>
    by_cases he : other = command
    · subst he
      rwa [withCall_outcome]
    · rw [withCall_outcome_ne s outcome he]
      exact silent_faithful 0 other

end Script

/-- What an interaction comes to in a world, it comes to by a faithful script. -/
theorem Interaction.run_eq_perform {α : Type} (i : Interaction α) (w : World) :
    ∃ s : Script, s.Faithful ∧ (i.run w).1 = (i.perform s).2 := by
  induction i generalizing w with
  | done value => exact ⟨.silent, Script.silent_faithful, rfl⟩
  | readClock next ih =>
    obtain ⟨s, hs, he⟩ := ih w.readClock.1 w.readClock.2
    exact ⟨{ s with clock := fun | 0 => w.readClock.1 | k + 1 => s.clock k }, hs, he⟩
  | draw next ih =>
    obtain ⟨s, hs, he⟩ := ih w.draw.1 w.draw.2
    exact ⟨{ s with draws := fun | 0 => w.draw.1 | k + 1 => s.draws k }, hs, he⟩
  | call command limit next ih =>
    obtain ⟨s, hs, he⟩ := ih (w.call command limit).1 (w.call command limit).2
    refine ⟨_, hs.withCall (w.isFaithful_call command limit), ?_⟩
    simp only [perform, Script.withCall_outcome]
    exact he
  | evict hosts limit next ih =>
    obtain ⟨s, hs, he⟩ := ih (w.evict hosts limit).1 (w.evict hosts limit).2
    exact ⟨{ s with evictions := fun
      | 0 => fun _ => (w.evict hosts limit).1
      | k + 1 => s.evictions k }, hs, he⟩
  | log event next ih =>
    obtain ⟨s, hs, he⟩ := ih (w.note event)
    exact ⟨s, hs, he⟩

/-! ## Tries -/

/-- The address is missing or has nothing but white space. -/
def Announcement.LacksAddress (a : Announcement) : Prop :=
  a.address = none ∨ ∃ address, a.address = some address ∧ isBlankText address = true

namespace Directory

variable (terms : Terms) (address : String) (port : Port) (s : Script)

/-- What is inserted at a try; the first has the number 0. -/
def candidateAt (k : Nat) : Candidate :=
  ⟨address, port, JoinCode.ofSeed (Seed.ofDraw (s.clock k) (s.draws k)), s.clock k⟩

def outcomeAt (k : Nat) : Outcome (.insert (candidateAt address port s k)) := s.outcomes k _

def eventsOf (candidate : Candidate) (number : Nat) : Outcome (.insert candidate) → List Event
  | .answered (some host) => [.registered host]
  | .answered none => [.codeTaken candidate.code number]
  | .failed _ | .timedOut => []

/-- All that is done at a try; `number` is that of the first one in the log. -/
def exchangesAt (number k : Nat) : List Exchange :=
  .reads (s.clock k) :: .draws (s.draws k) ::
    .calls (.insert (candidateAt address port s k)) terms.storageLimit
      (outcomeAt address port s k) ::
    (eventsOf (candidateAt address port s k) (number + k) (outcomeAt address port s k)).map .notes

def conclusion {candidate : Candidate} (limit attempts : Nat) :
    Outcome (.insert candidate) → Except Refusal Host
  | .answered (some host) => .ok host
  | .answered none => .error (.full attempts)
  | .failed fault => .error (.unavailable (.fault fault))
  | .timedOut => .error (.unavailable (.noResponse limit))

/-- How tries end, of which there are at most `left`: with the first one whose code is not taken, or
with the last. -/
inductive Ends (left number : Nat) : List Exchange × Except Refusal Host → Prop
  | decided (k : Nat) (within : k < left)
    (taken : ∀ j < k, outcomeAt address port s j = .answered none)
    (decides : outcomeAt address port s k ≠ .answered none) :
    Ends left number ((List.range (k + 1)).flatMap (exchangesAt terms address port s number),
      conclusion terms.storageLimit (number + left - 1) (outcomeAt address port s k))
  | exhausted (taken : ∀ k < left, outcomeAt address port s k = .answered none) :
    Ends left number ((List.range left).flatMap (exchangesAt terms address port s number) ++
      [.notes (.gaveUp (number + left - 1))], .error (.full (number + left - 1)))

variable {terms address port s}

/-- After one try the next has the number 0. -/
theorem exchangesAt_afterTry (number k : Nat) :
    exchangesAt terms address port s.afterTry (number + 1) k
      = exchangesAt terms address port s number (k + 1) := by
  have hnumber : number + 1 + k = number + (k + 1) := by omega
  simp only [exchangesAt, hnumber]
  rfl

theorem tries_succ (number count : Nat) :
    (List.range (count + 1)).flatMap (exchangesAt terms address port s number)
      = exchangesAt terms address port s number 0 ++
        (List.range count).flatMap (exchangesAt terms address port s.afterTry (number + 1)) := by
  rw [List.range_succ_eq_map, List.flatMap_cons, List.flatMap_map]
  exact congrArg _ (List.flatMap_congr fun k _ => (exchangesAt_afterTry number k).symm)

theorem Ends.cons {left number : Nat} {performed : List Exchange × Except Refusal Host}
    (h : Ends terms address port s.afterTry left (number + 1) performed)
    (taken : outcomeAt address port s 0 = .answered none) :
    Ends terms address port s (left + 1) number
      (exchangesAt terms address port s number 0 ++ performed.1, performed.2) := by
  have hlast : number + 1 + left - 1 = number + (left + 1) - 1 := by omega
  have hall {count : Nat} (hc : ∀ k < count, outcomeAt address port s.afterTry k = .answered none) :
      ∀ k < count + 1, outcomeAt address port s k = .answered none := by
    intro k hk
    cases k with
    | zero => exact taken
    | succ k => exact hc k (Nat.lt_of_succ_lt_succ hk)
  cases h with
  | decided k within others decides =>
    rw [← tries_succ, hlast]
    exact .decided (k + 1) (Nat.succ_lt_succ within) (hall others) decides
  | exhausted others =>
    rw [← List.append_assoc, ← tries_succ, hlast]
    exact .exhausted (hall others)

/-- What is left to do after a try, of which there are `left` more. -/
def afterOutcome (terms : Terms) (left number : Nat) (candidate : Candidate) :
    Outcome (.insert candidate) → Attempt Host
  | .answered (some host) => .log (.registered host) (.done (.ok host))
  | .answered none =>
    .log (.codeTaken candidate.code number)
      (tryCodes terms candidate.address candidate.port left (number + 1))
  | .failed fault => Attempt.refuse (.unavailable (.fault fault))
  | .timedOut => Attempt.refuse (.unavailable (.noResponse terms.storageLimit))

theorem tryCodes_succ (left number : Nat) :
    tryCodes terms address port (left + 1) number =
      .readClock fun now => .draw fun draw =>
        .call (.insert ⟨address, port, JoinCode.ofSeed (Seed.ofDraw now draw), now⟩)
          terms.storageLimit (afterOutcome terms left number _) := by
  refine congrArg Interaction.readClock (funext fun now => congrArg Interaction.draw ?_)
  refine funext fun draw => congrArg (Interaction.call _ _) (funext fun outcome => ?_)
  match outcome with
  | .answered (some _) | .answered none | .failed _ | .timedOut => rfl

theorem perform_try (left number : Nat) (s : Script) :
    (tryCodes terms address port (left + 1) number).perform s =
      (.reads (s.clock 0) :: .draws (s.draws 0) ::
        .calls (.insert (candidateAt address port s 0)) terms.storageLimit
          (outcomeAt address port s 0) ::
        ((afterOutcome terms left number _ (outcomeAt address port s 0)).perform s.afterTry).1,
      ((afterOutcome terms left number _ (outcomeAt address port s 0)).perform s.afterTry).2) := by
  rw [tryCodes_succ]
  rfl

theorem perform_tryCodes (left number : Nat) (s : Script) :
    Ends terms address port s left number
      ((tryCodes terms address port left number).perform s) := by
  induction left generalizing number s with
  | zero => exact .exhausted nofun
  | succ left ih =>
    have hfirst (h : outcomeAt address port s 0 ≠ .answered none) :
        Ends terms address port s (left + 1) number
          ((List.range (0 + 1)).flatMap (exchangesAt terms address port s number),
            conclusion terms.storageLimit (number + (left + 1) - 1) (outcomeAt address port s 0)) :=
      .decided 0 (Nat.zero_lt_succ _) nofun h
    have hrest := (ih (number + 1) s.afterTry).cons
    rw [tries_succ] at hfirst
    rw [perform_try]
    simp only [exchangesAt] at hfirst hrest
    generalize outcomeAt address port s 0 = outcome at hfirst hrest
    match outcome with
    | .answered none => exact hrest rfl
    | .answered (some host) => exact hfirst nofun
    | .failed fault => exact hfirst nofun
    | .timedOut => exact hfirst nofun

/-! ## What the tries come to -/

theorem calls_exchangesAt (number k : Nat) :
    (exchangesAt terms address port s number k).filter Exchange.isCall
      = [.calls (.insert (candidateAt address port s k)) terms.storageLimit
          (outcomeAt address port s k)] := by
  have hnotes (events : List Event) : (events.map Exchange.notes).filter Exchange.isCall = [] := by
    rw [List.filter_map]
    exact List.map_eq_nil_iff.mpr (List.filter_eq_nil_iff.mpr fun _ _ => Bool.false_ne_true)
  rw [exchangesAt, List.filter_cons_of_neg Bool.false_ne_true,
    List.filter_cons_of_neg Bool.false_ne_true, List.filter_cons_of_pos rfl, hnotes]

theorem calls_tries (number count : Nat) :
    ((List.range count).flatMap (exchangesAt terms address port s number)).filter Exchange.isCall
      = (List.range count).map fun k =>
          .calls (.insert (candidateAt address port s k)) terms.storageLimit
            (outcomeAt address port s k) := by
  rw [List.filter_flatMap, List.map_eq_flatMap]
  exact List.flatMap_congr fun k _ => calls_exchangesAt number k

theorem conclusion_ne_full {candidate : Candidate} {limit attempts n : Nat}
    {outcome : Outcome (.insert candidate)} (h : outcome ≠ .answered none) :
    conclusion limit attempts outcome ≠ .error (.full n) := by
  match outcome with
  | .answered none => exact absurd rfl h
  | .answered (some _) | .failed _ | .timedOut => exact nofun

theorem conclusion_eq_ok {candidate : Candidate} {limit attempts : Nat} {host : Host}
    {outcome : Outcome (.insert candidate)} (h : conclusion limit attempts outcome = .ok host) :
    outcome = .answered (some host) := by
  match outcome with
  | .answered (some _) =>
    cases h
    rfl
  | .answered none | .failed _ | .timedOut => cases h

/-- The calls of an interaction are a number of inserts, and the code of each was taken. -/
def AllTaken (limit count : Nat) (past : List Exchange) : Prop :=
  ∃ candidates : List Candidate, candidates.length = count ∧
    past.filter Exchange.isCall
      = candidates.map fun candidate => .calls (.insert candidate) limit (.answered none)

namespace Ends

variable {left number n : Nat} {past : List Exchange} {result : Except Refusal Host}

/-- The directory is full exactly if all codes that may be tried were, and were taken. -/
theorem full_iff (h : Ends terms address port s left number (past, result)) :
    result = .error (.full n) ↔ n = number + left - 1 ∧ AllTaken terms.storageLimit left past := by
  cases h with
  | decided k within taken decides =>
    refine iff_of_false (conclusion_ne_full decides) ?_
    rintro ⟨-, candidates, -, hcalls⟩
    rw [calls_tries, List.range_succ, List.map_append, List.map_singleton] at hcalls
    have hlast := congrArg List.getLast? hcalls
    rw [List.getLast?_concat, List.getLast?_map] at hlast
    obtain ⟨candidate, -, he⟩ := Option.map_eq_some_iff.mp hlast.symm
    generalize outcomeAt address port s k = outcome at decides he
    cases he
    exact decides rfl
  | exhausted taken =>
    constructor
    · rintro ⟨⟩
      refine ⟨rfl, (List.range left).map (candidateAt address port s), ?_, ?_⟩
      · rw [List.length_map, List.length_range]
      · rw [List.filter_append, calls_tries, List.map_map, List.filter_cons_of_neg
          Bool.false_ne_true, List.filter_nil, List.append_nil]
        refine List.map_congr_left fun k hk => ?_
        rw [taken k (List.mem_range.mp hk)]
        rfl
    · rintro ⟨rfl, -⟩
      rfl

theorem kind_ne (h : Ends terms address port s left number (past, result)) {refusal : Refusal}
    (hr : result = .error refusal) : refusal.kind ≠ .invalidInput := by
  cases h with
  | decided k within taken decides =>
    generalize outcomeAt address port s k = outcome at hr decides
    match outcome with
    | .answered none => exact absurd rfl decides
    | .answered (some _) => cases hr
    | .failed _ | .timedOut =>
      cases hr
      exact nofun
  | exhausted taken =>
    cases hr
    exact nofun

/-- A host is registered with the reading of the last try as its times. -/
theorem dated (h : Ends terms address port s left number (past, result)) (hs : s.Faithful)
    {host : Host} (hok : result = .ok host) :
    ∃ k, (past.filter Exchange.isCall).length = k + 1 ∧
      host.createdAt = s.clock k ∧ host.updatedAt = s.clock k := by
  cases h with
  | decided k within taken decides =>
    have hhost : host = (candidateAt address port s k).host host.id := by
      have hfaithful := hs k (.insert (candidateAt address port s k))
      rwa [show s.outcomes k _ = _ from conclusion_eq_ok hok] at hfaithful
    refine ⟨k, ?_, congrArg Host.createdAt hhost, congrArg Host.updatedAt hhost⟩
    rw [calls_tries, List.length_map, List.length_range]
  | exhausted taken => cases hok

end Ends

theorem attempts_eq (terms : Terms) : terms.attempts = max 1 terms.codeAttempts := by
  unfold Terms.attempts
  split <;> omega

theorem register_cases (terms : Terms) (a : Announcement) :
    (a.LacksAddress ∧ register terms a = Attempt.refuse .noAddress) ∨
    (¬ a.LacksAddress ∧ a.port = none ∧ register terms a = Attempt.refuse .noPort) ∨
    ¬ a.LacksAddress ∧ ∃ address port, a.address = some address ∧ a.port = some port ∧
      register terms a = tryCodes terms address port (max 1 terms.codeAttempts) 1 := by
  obtain ⟨address?, port?⟩ := a
  rw [← attempts_eq]
  cases address? with
  | none => exact .inl ⟨.inl rfl, rfl⟩
  | some address =>
    cases hblank : isBlankText address with
    | true =>
      refine .inl ⟨.inr ⟨address, rfl, hblank⟩, ?_⟩
      simp only [register, Option.filter, hblank]
      rfl
    | false =>
      have hthere : ¬ Announcement.LacksAddress ⟨some address, port?⟩ := by
        rintro (h | ⟨other, ⟨⟩, h⟩)
        · cases h
        · rw [hblank] at h
          cases h
      refine .inr ?_
      cases port? with
      | none =>
        refine .inl ⟨hthere, rfl, ?_⟩
        simp only [register, Option.filter, hblank]
        rfl
      | some port =>
        refine .inr ⟨hthere, address, port, rfl, rfl, ?_⟩
        simp only [register, Option.filter, hblank]
        rfl

/-- What a registration does by a script, and what it comes to. -/
structure Registers (terms : Terms) (a : Announcement) (s : Script) (past : List Exchange)
    (result : Except Refusal Host) : Prop where
  /-- The address is looked at first. -/
  noAddress : result = .error .noAddress ↔ a.LacksAddress
  noPort : result = .error .noPort ↔ ¬ a.LacksAddress ∧ a.port = none
  invalid : (∃ refusal, result = .error refusal ∧ refusal.kind = .invalidInput) ↔
    a.LacksAddress ∨ a.port = none
  idle : a.LacksAddress ∨ a.port = none → past = []
  tries : ∀ address port, a.address = some address → isBlankText address = false →
    a.port = some port → Ends terms address port s (max 1 terms.codeAttempts) 1 (past, result)
  dated : s.Faithful → ∀ host, result = .ok host → ∃ k,
    (past.filter Exchange.isCall).length = k + 1 ∧
      host.createdAt = s.clock k ∧ host.updatedAt = s.clock k
  full : ∀ n, result = .error (.full n) ↔
    n = max 1 terms.codeAttempts ∧ AllTaken terms.storageLimit (max 1 terms.codeAttempts) past

namespace Registers

variable {a : Announcement}

/-- An incomplete announcement is refused without any try. -/
theorem of_incomplete (hincomplete : a.LacksAddress ∨ a.port = none) {refusal : Refusal}
    (hkind : refusal.kind = .invalidInput) (haddress : refusal = .noAddress ↔ a.LacksAddress)
    (hport : refusal = .noPort ↔ ¬ a.LacksAddress ∧ a.port = none) :
    Registers terms a s [] (.error refusal) where
  noAddress := by rwa [Except.error.injEq]
  noPort := by rwa [Except.error.injEq]
  invalid := iff_of_true ⟨refusal, rfl, hkind⟩ hincomplete
  idle _ := rfl
  tries address port ha hblank hp := by
    rcases hincomplete with (h | ⟨other, h, hother⟩) | h
    · cases ha.symm.trans h
    · cases ha.symm.trans h
      rw [hblank] at hother
      cases hother
    · cases hp.symm.trans h
  dated _ host h := by cases h
  full n := by
    refine iff_of_false ?_ ?_
    · rintro ⟨⟩
      cases hkind
    · rintro ⟨-, candidates, hlength, hcalls⟩
      rw [List.map_eq_nil_iff.mp hcalls.symm, List.length_nil] at hlength
      omega

/-- A complete announcement leads to tries. -/
theorem of_ends (hthere : ¬ a.LacksAddress) (haddress : a.address = some address)
    (hport : a.port = some port) {past : List Exchange} {result : Except Refusal Host}
    (h : Ends terms address port s (max 1 terms.codeAttempts) 1 (past, result)) :
    Registers terms a s past result where
  noAddress := iff_of_false (fun hr => h.kind_ne hr rfl) hthere
  noPort := iff_of_false (fun hr => h.kind_ne hr rfl) fun hp => nomatch hport.symm.trans hp.2
  invalid := iff_of_false (fun ⟨_, hr, hkind⟩ => h.kind_ne hr hkind) fun hp =>
    hp.elim hthere fun hp => nomatch hport.symm.trans hp
  idle hp := hp.elim (absurd · hthere) fun hp => nomatch hport.symm.trans hp
  tries other number ha _ hp := by
    cases haddress.symm.trans ha
    cases hport.symm.trans hp
    exact h
  dated hs host := h.dated hs
  full n := by
    rw [h.full_iff, Nat.add_sub_cancel_left]

end Registers

/-- Whatever the world answers, a registration goes through its tries as it should, and in a world
it comes to what it comes to by some faithful script. -/
theorem register_tries (terms : Terms) (a : Announcement) :
    (∀ s, Registers terms a s ((register terms a).perform s).1 ((register terms a).perform s).2) ∧
      ∀ w : World, ∃ s : Script, s.Faithful ∧
        ((register terms a).run w).1 = ((register terms a).perform s).2 := by
  refine ⟨fun s => ?_, (register terms a).run_eq_perform⟩
  rcases register_cases terms a with
    ⟨hlacks, he⟩ | ⟨hthere, hport, he⟩ | ⟨hthere, address, port, haddress, hport, he⟩
  · rw [he]
    exact .of_incomplete (.inl hlacks) rfl (iff_of_true rfl hlacks)
      (iff_of_false nofun fun h => h.1 hlacks)
  · rw [he]
    exact .of_incomplete (.inr hport) rfl (iff_of_false nofun hthere)
      (iff_of_true rfl ⟨hthere, hport⟩)
  · rw [he]
    exact .of_ends hthere haddress hport (perform_tryCodes _ 1 s)

def secondChoice : Script where
  clock k := if k = 0 then .epoch else Backing.newYear
  draws k := .ofBlock ⟨List.replicate 16 (UInt8.ofNat k), rfl⟩
  outcomes
    | 0, .insert _ => .answered none
    | _, .insert candidate => .answered (some (candidate.host "00000000000040008000000000000003"))
    | _, _ => .timedOut
  evictions _ _ := []

def lobbyAnnouncement : Announcement := ⟨some " 10.0.0.5", some (.last 65535)⟩

theorem register_tries_second : secondChoice.Faithful ∧
    Registers {} lobbyAnnouncement secondChoice
      ((register {} lobbyAnnouncement).perform secondChoice).1
      ((register {} lobbyAnnouncement).perform secondChoice).2 ∧
    ((register {} lobbyAnnouncement).perform secondChoice).2
      = .ok ((candidateAt " 10.0.0.5" (.last 65535) secondChoice 1).host
          "00000000000040008000000000000003") := by
  refine ⟨fun k command => ?_, (register_tries {} lobbyAnnouncement).1 secondChoice, rfl⟩
  cases command with
  | insert candidate =>
    cases k with
    | zero => trivial
    | succ k => exact rfl
  | _ => cases k <;> trivial

end Directory
end Rendezvous
