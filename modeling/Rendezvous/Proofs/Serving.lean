import Rendezvous.Proofs.Interleaving
import Rendezvous.Store.Worker

/-!
# One request after another

`WorkerSystem.Step` lets callers queue requests, give up waiting and ask the worker to stop, while
the worker handles one errand at a time. `WorkerSystem.run_serial` says that a run comes to what its
requests come to one after another: in the order of the queue, without the writes of callers that
had given up, and without what comes after a stop.
-/

namespace Rendezvous

/-- What a caller was told; one that was not let into the queue has no number. -/
structure Notification where
  caller : Option Nat
  command : Command
  result : Result command

/-- A worker, and what its callers were told, the latest last. -/
structure WorkerSystem where
  worker : Worker
  told : List Notification := []

inductive Proceeding
  | queues (caller : Nat) (command : Command)
  | refuses (command : Command)
  | queuesStop
  /-- The caller does not wait any more. -/
  | leaves (caller : Nat)
  /-- The errand is taken from the queue and handled, with the draws that the worker finds. -/
  | handles (errand : Errand) (draws : Draws)

def Errand.caller? : Errand → Option Nat
  | .request caller _ => some caller
  | .stop => none

namespace Worker

variable (w : Worker) (draws : Draws)

/-- What the callers of errands that are thrown away are told. -/
def dismissals (errands : List Errand) : List Notification :=
  errands.filterMap fun
    | .stop => none
    | .request caller command =>
      if caller ∈ w.gone then none else some ⟨some caller, command, .error .stopped⟩

/-- What is told when the next errand is handled: its result to the caller that waits for it, or, on
a stop, that the worker has stopped to all that wait for an errand behind it. -/
def notifications : List Notification :=
  match (w.handleNext draws).1 with
  | none | some (.passedOver _) => []
  | some (.sent caller command result) =>
    if caller ∈ w.gone then [] else [⟨some caller, command, result⟩]
  | some .stopped => w.dismissals w.queue

end Worker

namespace WorkerSystem

inductive Step : WorkerSystem → Proceeding → WorkerSystem → Prop
  | queues {o : WorkerSystem} {caller : Nat} {worker : Worker} (command : Command)
    (h : o.worker.submit command = (some caller, worker)) :
    Step o (.queues caller command) { o with worker }
  | refuses {o : WorkerSystem} {worker : Worker} (command : Command)
    (h : o.worker.submit command = (none, worker)) :
    Step o (.refuses command) ⟨worker, o.told ++ [⟨none, command, .error .stopped⟩]⟩
  | queuesStop {o : WorkerSystem} {worker : Worker} (h : o.worker.submitStop = (true, worker)) :
    Step o .queuesStop { o with worker }
  | leaves (o : WorkerSystem) (caller : Nat) :
    Step o (.leaves caller) { o with worker := o.worker.hangUp caller }
  | handles {o : WorkerSystem} {errand : Errand} {rest : List Errand} (draws : Draws)
    (h : o.worker.queue = errand :: rest) :
    Step o (.handles errand draws)
      ⟨(o.worker.handleNext draws).2.1, o.told ++ o.worker.notifications draws⟩

inductive Run (start : WorkerSystem) : List Proceeding → WorkerSystem → Prop
  | nil : Run start [] start
  | snoc {past : List Proceeding} {o o' : WorkerSystem} {p : Proceeding} (run : Run start past o)
    (step : Step o p o') : Run start (past ++ [p]) o'

def opened (db : Database) : WorkerSystem := { worker := { database := db } }

end WorkerSystem

/-! ## What a run comes to -/

namespace Proceeding

def queued? : Proceeding → Option Errand
  | .queues caller command => some (.request caller command)
  | .queuesStop => some .stop
  | _ => none

def handled? : Proceeding → Option Errand
  | .handles errand _ => some errand
  | _ => none

def left? : Proceeding → Option Nat
  | .leaves caller => some caller
  | _ => none

def refused? : Proceeding → Option Command
  | .refuses command => some command
  | _ => none

end Proceeding

namespace WorkerSystem

def queued (past : List Proceeding) : List Errand := past.filterMap Proceeding.queued?

def handled (past : List Proceeding) : List Errand := past.filterMap Proceeding.handled?

def left (past : List Proceeding) : List Nat := past.filterMap Proceeding.left?

/-- The worker has dealt with a request to stop. -/
def Stopped (past : List Proceeding) : Prop := .stop ∈ handled past

/-- The commands that count, with the draws that each found: those handled before any stop, without
the writes of callers that had given up by then. -/
def served (gone : List Nat) : List Proceeding → List (Command × Draws)
  | [] => []
  | .leaves caller :: rest => served (caller :: gone) rest
  | .handles .stop _ :: _ => []
  | .handles (.request caller command) draws :: rest =>
    if command.isWrite = true ∧ caller ∈ gone then served gone rest
    else (command, draws) :: served gone rest
  | .queues _ _ :: rest | .refuses _ :: rest | .queuesStop :: rest => served gone rest

def replay (db : Database) : List (Command × Draws) → Database
  | [] => db
  | (command, draws) :: rest => replay (db.run draws command).2.1 rest

/-- The request was handled while its caller waited, and this is its result behind all that was
served before it. -/
def Replied (db : Database) (past : List Proceeding) (caller : Nat) (command : Command)
    (result : Result command) : Prop :=
  ∃ draws before after, past = before ++ .handles (.request caller command) draws :: after ∧
    caller ∉ left before ∧ result = ((replay db (served [] before)).run draws command).1

/-- The request was still queued, and its caller waited, when the worker stopped. -/
def Dropped (past : List Proceeding) (caller : Nat) (command : Command) : Prop :=
  ∃ draws before after, past = before ++ .handles .stop draws :: after ∧
    .request caller command ∈ queued before ∧ .request caller command ∉ handled before ∧
    caller ∉ left before

/-- The worker got to where the requests lead that were served, one after another. -/
structure Serial (db : Database) (past : List Proceeding) (o : WorkerSystem) : Prop where
  /-- Nothing is handled twice, out of its turn, or without having been queued. -/
  inOrder : handled past <+: queued past
  callers_nodup : ((queued past).filterMap Errand.caller?).Nodup
  database : o.worker.database = replay db (served [] past)
  told_iff : ∀ caller command result, ⟨some caller, command, result⟩ ∈ o.told ↔
    Replied db past caller command result ∨ (Dropped past caller command ∧ result = .error .stopped)
  told_once : (o.told.filterMap (·.caller)).Nodup
  /-- Handling a write whose caller has given up changes nothing and tells nobody. -/
  abandoned : ∀ caller command draws o', Step o (.handles (.request caller command) draws) o' →
    command.isWrite = true → caller ∈ left past →
    o'.worker.database = o.worker.database ∧ o'.told = o.told
  /-- Who is refused is told that the worker has stopped. -/
  told_refused : o.told.filter (·.caller.isNone)
    = (past.filterMap Proceeding.refused?).map fun command => ⟨none, command, .error .stopped⟩
  /-- A worker that has stopped refuses all commands, and nothing changes any more. -/
  stopped : Stopped past → (∀ command, (o.worker.submit command).1 = none) ∧ ∀ p o', Step o p o' →
    o'.worker.database = o.worker.database ∧ ∀ errand draws, p ≠ .handles errand draws

/-! ## One step more -/

@[simp] theorem queued_concat (past : List Proceeding) (p : Proceeding) :
    queued (past ++ [p]) = queued past ++ p.queued?.toList := filterMap_concat _ past p

@[simp] theorem handled_concat (past : List Proceeding) (p : Proceeding) :
    handled (past ++ [p]) = handled past ++ p.handled?.toList := filterMap_concat _ past p

@[simp] theorem left_concat (past : List Proceeding) (p : Proceeding) :
    left (past ++ [p]) = left past ++ p.left?.toList := filterMap_concat _ past p

@[simp] theorem stopped_concat {past : List Proceeding} {p : Proceeding} :
    Stopped (past ++ [p]) ↔ Stopped past ∨ p.handled? = some .stop := by
  simp [Stopped]

/-- A place in a list with one entry more is a place in the list, or the last one. -/
theorem exists_place_concat {α : Type} {xs : List α} {x y : α} {P : List α → Prop} :
    (∃ before after, xs ++ [y] = before ++ x :: after ∧ P before) ↔
      (∃ before after, xs = before ++ x :: after ∧ P before) ∨ (y = x ∧ P xs) := by
  constructor
  · rintro ⟨before, after, hs, hp⟩
    rcases List.eq_nil_or_concat after with rfl | ⟨init, last, rfl⟩
    · obtain ⟨rfl, hy⟩ := List.append_inj' hs rfl
      exact .inr ⟨List.singleton_inj.mp hy, hp⟩
    · rw [List.concat_eq_append, ← List.cons_append, ← List.append_assoc] at hs
      exact .inl ⟨before, init, (List.append_inj' hs rfl).1, hp⟩
  · rintro (⟨before, after, rfl, hp⟩ | ⟨rfl, hp⟩)
    · exact ⟨before, after ++ [y], by simp, hp⟩
    · exact ⟨xs, [], rfl, hp⟩

variable {db : Database} {past : List Proceeding} {p : Proceeding} {caller : Nat}
  {command : Command}

theorem replied_concat {result : Result command} :
    Replied db (past ++ [p]) caller command result ↔ Replied db past caller command result ∨
      ∃ draws, p = .handles (.request caller command) draws ∧ caller ∉ left past ∧
        result = ((replay db (served [] past)).run draws command).1 := by
  unfold Replied
  rw [← exists_or]
  exact exists_congr fun draws => exists_place_concat

theorem dropped_concat :
    Dropped (past ++ [p]) caller command ↔ Dropped past caller command ∨
      ∃ draws, p = .handles .stop draws ∧ .request caller command ∈ queued past ∧
        .request caller command ∉ handled past ∧ caller ∉ left past := by
  unfold Dropped
  rw [← exists_or]
  exact exists_congr fun draws => exists_place_concat

theorem replay_append (db : Database) (xs ys : List (Command × Draws)) :
    replay db (xs ++ ys) = replay (replay db xs) ys := by
  induction xs generalizing db with
  | nil => rfl
  | cons x xs ih => exact ih _

theorem served_concat_other (gone : List Nat)
    (h : ∀ caller command draws, p ≠ .handles (.request caller command) draws) :
    served gone (past ++ [p]) = served gone past := by
  induction past generalizing gone with
  | nil =>
    cases p with
    | handles errand draws =>
      cases errand with
      | request caller command => exact absurd rfl (h caller command draws)
      | stop => rfl
    | _ => rfl
  | cons q rest ih =>
    cases q with
    | handles errand draws =>
      cases errand with
      | request caller command => simp only [List.cons_append, served, ih]
      | stop => rfl
    | _ => exact ih _

theorem served_concat_request (gone : List Nat) (draws : Draws) (h : ¬ Stopped past) :
    served gone (past ++ [.handles (.request caller command) draws])
      = served gone past ++
        if command.isWrite = true ∧ (caller ∈ left past ∨ caller ∈ gone) then []
        else [(command, draws)] := by
  induction past generalizing gone with
  | nil => simp [served, left]
  | cons q rest ih =>
    have hrest : ¬ Stopped rest := by
      intro hs
      apply h
      show Errand.stop ∈ (q :: rest).filterMap Proceeding.handled?
      rw [List.filterMap_cons]
      split
      · exact hs
      · exact List.mem_cons_of_mem _ hs
    cases q with
    | handles errand draws =>
      cases errand with
      | request other command' =>
        simp only [List.cons_append, served, ih gone hrest]
        have : left (.handles (.request other command') draws :: rest) = left rest := rfl
        rw [this]
        split <;> rfl
      | stop => exact absurd (List.mem_cons_self (a := Errand.stop)) h
    | leaves other =>
      have : left (.leaves other :: rest) = other :: left rest := rfl
      simp only [List.cons_append, served, ih (other :: gone) hrest, this, List.mem_cons]
      congr 3
      rw [or_assoc, or_left_comm]
    | queues other command' => exact ih gone hrest
    | refuses command' => exact ih gone hrest
    | queuesStop => exact ih gone hrest

/-! ## What a step does to the worker -/

section

variable {w : Worker} {rest : List Errand} (draws : Draws)

omit draws in
theorem submit_eq_some {w' : Worker} (h : w.submit command = (some caller, w')) :
    w.stopped = false ∧ caller = w.callers ∧
      w' = { w with
        queue := w.queue ++ [.request caller command]
        callers := w.callers + 1 } := by
  unfold Worker.submit at h
  split at h
  · cases h
  · next hs =>
    cases h
    exact ⟨Bool.not_eq_true _ ▸ hs, rfl, rfl⟩

omit draws in
theorem submit_eq_none {w' : Worker} (h : w.submit command = (none, w')) :
    w.stopped = true ∧ w' = w := by
  unfold Worker.submit at h
  split at h
  · next hs =>
    cases h
    exact ⟨hs, rfl⟩
  · cases h

omit draws in
theorem submitStop_eq_true {w' : Worker} (h : w.submitStop = (true, w')) :
    w.stopped = false ∧ w' = { w with queue := w.queue ++ [.stop] } := by
  unfold Worker.submitStop at h
  split at h
  · cases h
  · next hs =>
    cases h
    exact ⟨Bool.not_eq_true _ ▸ hs, rfl⟩

theorem handleNext_stop (h : w.queue = .stop :: rest) :
    (w.handleNext draws).2.1 = { w with queue := [], stopped := true } ∧
      w.notifications draws = w.dismissals rest := by
  constructor
  · simp only [Worker.handleNext, h]
  · simp only [Worker.notifications, Worker.handleNext, h]
    rfl

theorem handleNext_abandoned (h : w.queue = .request caller command :: rest)
    (ha : command.isWrite = true ∧ caller ∈ w.gone) :
    (w.handleNext draws).2.1 = { w with queue := rest } ∧ w.notifications draws = [] := by
  have habandoned : { w with queue := rest }.isAbandoned caller command = true := by
    simp [Worker.isAbandoned, ha]
  constructor
  · simp only [Worker.handleNext, h, habandoned, if_true]
  · simp only [Worker.notifications, Worker.handleNext, h, habandoned, if_true]

theorem handleNext_served (h : w.queue = .request caller command :: rest)
    (ha : ¬ (command.isWrite = true ∧ caller ∈ w.gone)) :
    (w.handleNext draws).2.1
        = { w with queue := rest, database := (w.database.run draws command).2.1 } ∧
      w.notifications draws = if caller ∈ w.gone then []
        else [⟨some caller, command, (w.database.run draws command).1⟩] := by
  have hwaits : { w with queue := rest }.isAbandoned caller command = false := by
    rw [Worker.isAbandoned, Bool.and_eq_false_iff]
    by_cases hwrite : command.isWrite = true
    · right
      simpa [hwrite] using ha
    · exact .inl (Bool.not_eq_true _ ▸ hwrite)
  constructor
  · simp only [Worker.handleNext, h, hwaits, Bool.false_eq_true, if_false]
  · simp only [Worker.notifications, Worker.handleNext, h, hwaits, Bool.false_eq_true, if_false]

end

/-! ## The queue along a run -/

/-- The worker is where the steps took it. -/
structure Lined (db : Database) (past : List Proceeding) (w : Worker) : Prop where
  gone_iff : ∀ caller, caller ∈ w.gone ↔ caller ∈ left past
  stopped_iff : w.stopped = true ↔ Stopped past
  line : ¬ Stopped past → queued past = handled past ++ w.queue
  ended : Stopped past → w.queue = [] ∧ handled past <+: queued past
  callers_nodup : ((queued past).filterMap Errand.caller?).Nodup
  callers_lt : ∀ caller ∈ (queued past).filterMap Errand.caller?, caller < w.callers
  database : w.database = replay db (served [] past)

theorem lined_opened : Lined db [] (opened db).worker where
  gone_iff _ := Iff.rfl
  stopped_iff := iff_of_false Bool.false_ne_true List.not_mem_nil
  line _ := rfl
  ended h := by cases h
  callers_nodup := List.nodup_nil
  callers_lt _ h := by cases h
  database := rfl

namespace Lined

variable {w : Worker}

theorem inOrder (h : Lined db past w) : handled past <+: queued past := by
  by_cases hs : Stopped past
  · exact (h.ended hs).2
  · rw [h.line hs]
    exact List.prefix_append _ _

theorem not_stopped (h : Lined db past w) (hs : w.stopped = false) : ¬ Stopped past := by
  rw [← h.stopped_iff, hs]
  decide

theorem not_stopped_of_cons (h : Lined db past w) {errand : Errand} {rest : List Errand}
    (hq : w.queue = errand :: rest) : ¬ Stopped past := by
  intro hs
  rw [(h.ended hs).1] at hq
  cases hq

theorem queue (h : Lined db past w) (hs : w.stopped = false) {errand : Errand}
    (hq : p.queued? = some errand) (hh : p.handled? = none) (hl : p.left? = none) {callers : Nat}
    (hcaller : ∀ caller ∈ errand.caller?, caller = w.callers ∧ caller < callers)
    (hle : w.callers ≤ callers) :
    Lined db (past ++ [p]) { w with queue := w.queue ++ [errand], callers } := by
  have hnot := h.not_stopped hs
  refine ⟨?_, ?_, ?_, ?_, ?_, ?_, ?_⟩
  · simpa [hl] using h.gone_iff
  · simpa [hh] using h.stopped_iff
  · intro _
    simp [hq, hh, h.line hnot]
  · simp [hh, hnot]
  · rw [queued_concat, hq, Option.toList_some, filterMap_concat, List.nodup_append]
    refine ⟨h.callers_nodup, ?_, ?_⟩
    · cases errand.caller? with
      | none => exact List.nodup_nil
      | some caller => exact List.pairwise_singleton _ caller
    · intro a ha b hb hab
      have := h.callers_lt a ha
      have := hcaller b (Option.mem_toList.mp hb)
      omega
  · rw [queued_concat, hq, Option.toList_some, filterMap_concat]
    intro caller hc
    rcases List.mem_append.mp hc with hc | hc
    · exact Nat.lt_of_lt_of_le (h.callers_lt caller hc) hle
    · exact (hcaller caller (Option.mem_toList.mp hc)).2
  · rw [served_concat_other]
    · exact h.database
    · rintro caller command draws rfl
      cases hh

theorem take (h : Lined db past w) {rest : List Errand}
    (hq : w.queue = .request caller command :: rest) {draws : Draws} {after : Database}
    (hafter : after
      = replay db (served [] (past ++ [.handles (.request caller command) draws]))) :
    Lined db (past ++ [.handles (.request caller command) draws])
      { w with queue := rest, database := after } := by
  have hnot := h.not_stopped_of_cons hq
  refine ⟨?_, ?_, ?_, ?_, ?_, ?_, hafter⟩
  · simpa [Proceeding.left?] using h.gone_iff
  · simpa [Proceeding.handled?] using h.stopped_iff
  · intro _
    simp [Proceeding.queued?, Proceeding.handled?, h.line hnot, hq]
  · simp [Proceeding.handled?, hnot]
  · simpa [Proceeding.queued?] using h.callers_nodup
  · simpa [Proceeding.queued?] using h.callers_lt

theorem stop (h : Lined db past w) {rest : List Errand} (hq : w.queue = .stop :: rest)
    (draws : Draws) :
    Lined db (past ++ [.handles .stop draws]) { w with queue := [], stopped := true } := by
  have hnot := h.not_stopped_of_cons hq
  refine ⟨?_, ?_, ?_, ?_, ?_, ?_, ?_⟩
  · simpa [Proceeding.left?] using h.gone_iff
  · simp [Proceeding.handled?]
  · simp [Proceeding.handled?]
  · intro _
    refine ⟨rfl, rest, ?_⟩
    simp [Proceeding.queued?, Proceeding.handled?, h.line hnot, hq]
  · simpa [Proceeding.queued?] using h.callers_nodup
  · simpa [Proceeding.queued?] using h.callers_lt
  · rw [served_concat_other]
    · exact h.database
    · rintro caller command draws' he
      cases he

theorem pass (h : Lined db past w) (hq : p.queued? = none) (hh : p.handled? = none)
    {gone : List Nat} (hgone : ∀ caller, caller ∈ gone ↔ caller ∈ left (past ++ [p])) :
    Lined db (past ++ [p]) { w with gone } := by
  refine ⟨hgone, ?_, ?_, ?_, ?_, ?_, ?_⟩
  · simpa [hh] using h.stopped_iff
  · simpa [hq, hh] using h.line
  · simpa [hq, hh] using h.ended
  · simpa [hq] using h.callers_nodup
  · simpa [hq] using h.callers_lt
  · rw [served_concat_other]
    · exact h.database
    · rintro caller command draws rfl
      cases hh

/-- Handling a request brings the database to where the served commands lead. -/
theorem replay_request (h : Lined db past w) (hnot : ¬ Stopped past) (draws : Draws) :
    replay db (served [] (past ++ [.handles (.request caller command) draws]))
      = if command.isWrite = true ∧ caller ∈ w.gone then w.database
        else (w.database.run draws command).2.1 := by
  rw [served_concat_request _ _ hnot, replay_append, ← h.database]
  simp only [List.not_mem_nil, or_false, ← h.gone_iff]
  split
  · rfl
  · rfl

theorem step {o o' : WorkerSystem} (h : Lined db past o.worker) (hstep : Step o p o') :
    Lined db (past ++ [p]) o'.worker := by
  cases hstep with
  | queues command hsubmit =>
    obtain ⟨hs, rfl, rfl⟩ := submit_eq_some hsubmit
    refine h.queue hs rfl rfl rfl ?_ (Nat.le_succ _)
    intro caller hc
    cases hc
    exact ⟨rfl, Nat.lt_succ_self _⟩
  | refuses command hsubmit =>
    obtain ⟨_, rfl⟩ := submit_eq_none hsubmit
    exact h.pass rfl rfl fun caller => by simpa [Proceeding.left?] using h.gone_iff caller
  | queuesStop hsubmit =>
    obtain ⟨hs, rfl⟩ := submitStop_eq_true hsubmit
    exact h.queue hs rfl rfl rfl (fun caller hc => by cases hc) (Nat.le_refl _)
  | leaves caller =>
    refine h.pass rfl rfl fun other => ?_
    rw [left_concat, List.mem_append, List.mem_cons, h.gone_iff, or_comm]
    simp [Proceeding.left?]
  | @handles errand rest draws hq =>
    have hnot := h.not_stopped_of_cons hq
    cases errand with
    | stop =>
      rw [(handleNext_stop draws hq).1]
      exact h.stop hq draws
    | request caller command =>
      have hreplay : replay db
          (served [] (past ++ [.handles (.request caller command) draws])) = _ :=
        h.replay_request hnot draws
      by_cases ha : command.isWrite = true ∧ caller ∈ o.worker.gone
      · rw [(handleNext_abandoned draws hq ha).1]
        exact h.take hq (by rw [hreplay, if_pos ha])
      · rw [(handleNext_served draws hq ha).1]
        exact h.take hq (by rw [hreplay, if_neg ha])

/-- Who waits in the queue has queued a request. -/
theorem caller_queued (h : Lined db past w) {caller : Nat}
    (hc : caller ∈ w.queue.filterMap Errand.caller?) :
    caller ∈ (queued past).filterMap Errand.caller? := by
  by_cases hs : Stopped past
  · rw [(h.ended hs).1] at hc
    cases hc
  · rw [h.line hs, List.filterMap_append]
    exact List.mem_append_right _ hc

theorem queue_callers_nodup (h : Lined db past w) :
    (w.queue.filterMap Errand.caller?).Nodup := by
  by_cases hs : Stopped past
  · rw [(h.ended hs).1]
    exact List.nodup_nil
  · have hn := h.callers_nodup
    rw [h.line hs, List.filterMap_append] at hn
    exact (List.nodup_append.mp hn).2.1

/-- What is left in the queue behind a stop is what was queued and not handled. -/
theorem mem_rest_iff (h : Lined db past w) {rest : List Errand} (hq : w.queue = .stop :: rest) :
    .request caller command ∈ rest ↔
      .request caller command ∈ queued past ∧ .request caller command ∉ handled past := by
  have hn := h.callers_nodup
  have hline := h.line (h.not_stopped_of_cons hq)
  rw [hq] at hline
  rw [hline, List.filterMap_append, List.nodup_append] at hn
  rw [hline]
  constructor
  · intro hmem
    refine ⟨by simp [hmem], fun hh => ?_⟩
    have hfirst : caller ∈ (handled past).filterMap Errand.caller? :=
      List.mem_filterMap.mpr ⟨_, hh, rfl⟩
    have hsecond : caller ∈ (Errand.stop :: rest).filterMap Errand.caller? :=
      List.mem_filterMap.mpr ⟨_, List.mem_cons_of_mem _ hmem, rfl⟩
    exact hn.2.2 caller hfirst caller hsecond rfl
  · rintro ⟨hmem, hh⟩
    rcases List.mem_append.mp hmem with hmem | hmem
    · exact absurd hmem hh
    · exact (List.mem_cons.mp hmem).resolve_left (fun he => by cases he)

end Lined

/-! ## What callers are told along a run -/

/-- The step tells the caller this result of its command. -/
def Informs (db : Database) (past : List Proceeding) (p : Proceeding) (caller : Nat)
    (command : Command) (result : Result command) : Prop :=
  (∃ draws, p = .handles (.request caller command) draws ∧ caller ∉ left past ∧
      result = ((replay db (served [] past)).run draws command).1) ∨
    ((∃ draws, p = .handles .stop draws ∧ .request caller command ∈ queued past ∧
      .request caller command ∉ handled past ∧ caller ∉ left past) ∧ result = .error .stopped)

theorem mem_dismissals {w : Worker} {errands : List Errand} {result : Result command} :
    ⟨some caller, command, result⟩ ∈ w.dismissals errands ↔
      .request caller command ∈ errands ∧ caller ∉ w.gone ∧ result = .error .stopped := by
  unfold Worker.dismissals
  rw [List.mem_filterMap]
  constructor
  · rintro ⟨errand, hmem, he⟩
    cases errand with
    | stop => cases he
    | request other command' =>
      simp only [] at he
      split at he
      · cases he
      · next hgone =>
        cases he
        exact ⟨hmem, hgone, rfl⟩
  · rintro ⟨hmem, hgone, rfl⟩
    exact ⟨_, hmem, if_neg hgone⟩

theorem dismissals_callers (w : Worker) (errands : List Errand) :
    ((w.dismissals errands).filterMap (·.caller)).Sublist (errands.filterMap Errand.caller?) ∧
      (w.dismissals errands).filter (·.caller.isNone) = [] := by
  induction errands with
  | nil => exact ⟨List.nil_sublist _, rfl⟩
  | cons errand rest ih =>
    cases errand with
    | stop => exact ih
    | request caller command =>
      by_cases hgone : caller ∈ w.gone
      · have : w.dismissals (.request caller command :: rest) = w.dismissals rest := by
          simp [Worker.dismissals, hgone]
        rw [this]
        exact ⟨ih.1.trans (List.sublist_cons_self _ _), ih.2⟩
      · have : w.dismissals (.request caller command :: rest)
            = ⟨some caller, command, .error .stopped⟩ :: w.dismissals rest := by
          simp [Worker.dismissals, hgone]
        rw [this]
        exact ⟨ih.1.cons_cons caller, ih.2⟩

/-- Callers were told what the steps informed them of, and none of them twice. -/
structure Informed (db : Database) (past : List Proceeding) (o : WorkerSystem) : Prop where
  told_iff : ∀ caller command result, ⟨some caller, command, result⟩ ∈ o.told ↔
    Replied db past caller command result ∨ (Dropped past caller command ∧ result = .error .stopped)
  told_once : (o.told.filterMap (·.caller)).Nodup
  told_lt : ∀ caller ∈ o.told.filterMap (·.caller), caller < o.worker.callers
  not_queued : ∀ caller ∈ o.told.filterMap (·.caller),
    caller ∉ o.worker.queue.filterMap Errand.caller?
  told_refused : o.told.filter (·.caller.isNone)
    = (past.filterMap Proceeding.refused?).map fun command => ⟨none, command, .error .stopped⟩

theorem informed_opened : Informed db [] (opened db) where
  told_iff caller command result := by
    have hplace : ∀ (before after : List Proceeding) (p : Proceeding), [] ≠ before ++ p :: after :=
      fun before after p => (List.append_ne_nil_of_right_ne_nil _ (List.cons_ne_nil p after)).symm
    refine iff_of_false List.not_mem_nil ?_
    rintro (⟨draws, before, after, he, _⟩ | ⟨⟨draws, before, after, he, _⟩, _⟩)
    · exact hplace before after _ he
    · exact hplace before after _ he
  told_once := List.nodup_nil
  told_lt caller hc := by cases hc
  not_queued caller hc := by cases hc
  told_refused := rfl

namespace Informed

/-- A step that tells what it should, to callers that wait in the queue and leave it by the step. -/
theorem concat {o : WorkerSystem} (h : Informed db past o) (hl : Lined db past o.worker)
    {news : List Notification} {w : Worker}
    (hnews : ∀ caller command result, ⟨some caller, command, result⟩ ∈ news ↔
      Informs db past p caller command result)
    (hnodup : (news.filterMap (·.caller)).Nodup)
    (hwaited : ∀ caller ∈ news.filterMap (·.caller),
      caller ∈ o.worker.queue.filterMap Errand.caller?)
    (hrest : ∀ caller ∈ w.queue.filterMap Errand.caller?, caller ∉ news.filterMap (·.caller) ∧
      (caller ∈ o.worker.queue.filterMap Errand.caller? ∨ o.worker.callers ≤ caller))
    (hle : o.worker.callers ≤ w.callers)
    (hrefused : news.filter (·.caller.isNone)
      = p.refused?.toList.map fun command => ⟨none, command, .error .stopped⟩) :
    Informed db (past ++ [p]) ⟨w, o.told ++ news⟩ where
  told_iff caller command result := by
    rw [List.mem_append, h.told_iff, hnews, replied_concat, dropped_concat, Informs, or_and_right,
      or_or_or_comm]
  told_once := by
    rw [List.filterMap_append, List.nodup_append]
    refine ⟨h.told_once, hnodup, ?_⟩
    rintro caller htold _ hnew rfl
    exact h.not_queued caller htold (hwaited caller hnew)
  told_lt caller hc := by
    rw [List.filterMap_append] at hc
    rcases List.mem_append.mp hc with hc | hc
    · exact Nat.lt_of_lt_of_le (h.told_lt caller hc) hle
    · exact Nat.lt_of_lt_of_le (hl.callers_lt caller (hl.caller_queued (hwaited caller hc))) hle
  not_queued caller hc hw := by
    obtain ⟨hnew, hold⟩ := hrest caller hw
    rw [List.filterMap_append] at hc
    have htold := (List.mem_append.mp hc).resolve_right hnew
    rcases hold with hold | hold
    · exact h.not_queued caller htold hold
    · exact absurd (h.told_lt caller htold) (Nat.not_lt.mpr hold)
  told_refused := by
    rw [List.filter_append, h.told_refused, hrefused, filterMap_concat, List.map_append]

theorem silent {o : WorkerSystem} (h : Informed db past o) (hl : Lined db past o.worker)
    {w : Worker} (hnews : ∀ caller command result, ¬ Informs db past p caller command result)
    (hrest : ∀ caller ∈ w.queue.filterMap Errand.caller?,
      caller ∈ o.worker.queue.filterMap Errand.caller? ∨ o.worker.callers ≤ caller)
    (hle : o.worker.callers ≤ w.callers) (hrefused : p.refused? = none) :
    Informed db (past ++ [p]) ⟨w, o.told⟩ := by
  have hc : Informed db (past ++ [p]) ⟨w, o.told ++ []⟩ := h.concat hl
    (fun caller command result => iff_of_false List.not_mem_nil (hnews caller command result))
    List.nodup_nil (fun caller hc => by cases hc)
    (fun caller hc => ⟨List.not_mem_nil, hrest caller hc⟩) hle (by rw [hrefused]; rfl)
  rwa [List.append_nil] at hc

theorem not_informs (hp : ∀ errand draws, p ≠ .handles errand draws) (caller : Nat)
    (command : Command) (result : Result command) : ¬ Informs db past p caller command result := by
  rintro (⟨draws, he, _⟩ | ⟨⟨draws, he, _⟩, _⟩)
  · exact hp _ _ he
  · exact hp _ _ he

theorem informs_request {other : Nat} {command' : Command} {draws : Draws}
    {result : Result command'} :
    Informs db past (.handles (.request caller command) draws) other command' result ↔
      (⟨some other, command', result⟩ : Notification) = ⟨some caller, command,
        ((replay db (served [] past)).run draws command).1⟩ ∧ caller ∉ left past := by
  constructor
  · rintro (⟨draws', he, hgone, rfl⟩ | ⟨⟨draws', he, _⟩, _⟩)
    · cases he
      exact ⟨rfl, hgone⟩
    · cases he
  · rintro ⟨he, hgone⟩
    cases he
    exact .inl ⟨draws, rfl, hgone, rfl⟩

theorem handles_request {o : WorkerSystem} (h : Informed db past o) (hl : Lined db past o.worker)
    {rest : List Errand} (hq : o.worker.queue = .request caller command :: rest) (draws : Draws) :
    Informed db (past ++ [.handles (.request caller command) draws])
      ⟨(o.worker.handleNext draws).2.1, o.told ++ o.worker.notifications draws⟩ := by
  have hqueue : o.worker.queue.filterMap Errand.caller?
      = caller :: rest.filterMap Errand.caller? := by
    rw [hq]
    rfl
  have hn := hl.queue_callers_nodup
  rw [hqueue, List.nodup_cons] at hn
  have hkept : ∀ other ∈ rest.filterMap Errand.caller?,
      other ∈ o.worker.queue.filterMap Errand.caller? := by
    intro other ho
    rw [hqueue]
    exact List.mem_cons_of_mem _ ho
  by_cases ha : command.isWrite = true ∧ caller ∈ o.worker.gone
  · obtain ⟨hw, hnotifications⟩ := handleNext_abandoned draws hq ha
    rw [hw, hnotifications, List.append_nil]
    refine h.silent hl (fun other command' result hi => ?_) (fun other ho => .inl (hkept other ho))
      (Nat.le_refl _) rfl
    exact (informs_request.mp hi).2 ((hl.gone_iff caller).mp ha.2)
  · obtain ⟨hw, hnotifications⟩ := handleNext_served draws hq ha
    rw [hw, hnotifications]
    by_cases hgone : caller ∈ o.worker.gone
    · rw [if_pos hgone, List.append_nil]
      refine h.silent hl (fun other command' result hi => ?_)
        (fun other ho => .inl (hkept other ho)) (Nat.le_refl _) rfl
      exact (informs_request.mp hi).2 ((hl.gone_iff caller).mp hgone)
    · rw [if_neg hgone]
      refine h.concat hl (fun other command' result => ?_) (List.pairwise_singleton _ caller)
        (fun other ho => ?_) (fun other ho => ⟨fun he => ?_, .inl (hkept other ho)⟩)
        (Nat.le_refl _) rfl
      · rw [List.mem_singleton, informs_request, ← hl.database]
        exact (and_iff_left fun hleft => hgone ((hl.gone_iff caller).mpr hleft)).symm
      · rw [hqueue]
        obtain rfl := List.mem_singleton.mp ho
        exact List.mem_cons_self
      · obtain rfl := List.mem_singleton.mp he
        exact hn.1 ho

theorem handles_stop {o : WorkerSystem} (h : Informed db past o) (hl : Lined db past o.worker)
    {rest : List Errand} (hq : o.worker.queue = .stop :: rest) (draws : Draws) :
    Informed db (past ++ [.handles .stop draws])
      ⟨(o.worker.handleNext draws).2.1, o.told ++ o.worker.notifications draws⟩ := by
  obtain ⟨hw, hnotifications⟩ := handleNext_stop draws hq
  obtain ⟨hsub, hnumbered⟩ := dismissals_callers o.worker rest
  have hqueue : o.worker.queue.filterMap Errand.caller? = rest.filterMap Errand.caller? := by
    rw [hq]
    rfl
  have hn := hl.queue_callers_nodup
  rw [hqueue] at hn
  rw [hw, hnotifications]
  refine h.concat hl (fun caller command result => ?_) (hn.sublist hsub) (fun caller hc => ?_)
    (fun caller hc => by cases hc) (Nat.le_refl _) hnumbered
  · rw [mem_dismissals, hl.mem_rest_iff hq, hl.gone_iff]
    constructor
    · rintro ⟨⟨hqueued, hhandled⟩, hgone, hr⟩
      exact .inr ⟨⟨draws, rfl, hqueued, hhandled, hgone⟩, hr⟩
    · rintro (⟨draws', he, _⟩ | ⟨⟨draws', _, hqueued, hhandled, hgone⟩, hr⟩)
      · cases he
      · exact ⟨⟨hqueued, hhandled⟩, hgone, hr⟩
  · rw [hqueue]
    exact hsub.subset hc

theorem step {o o' : WorkerSystem} (h : Informed db past o) (hl : Lined db past o.worker)
    (hstep : Step o p o') : Informed db (past ++ [p]) o' := by
  cases hstep with
  | queues command hsubmit =>
    obtain ⟨_, rfl, rfl⟩ := submit_eq_some hsubmit
    refine h.silent hl (not_informs fun _ _ he => nomatch he) (fun caller hc => ?_)
      (Nat.le_succ _) rfl
    rw [List.filterMap_append] at hc
    rcases List.mem_append.mp hc with hc | hc
    · exact .inl hc
    · obtain rfl := List.mem_singleton.mp hc
      exact .inr (Nat.le_refl _)
  | refuses command hsubmit =>
    obtain ⟨_, rfl⟩ := submit_eq_none hsubmit
    refine h.concat hl (fun caller command' result => ?_) List.nodup_nil
      (fun caller hc => by cases hc) (fun caller hc => ⟨List.not_mem_nil, .inl hc⟩)
      (Nat.le_refl _) rfl
    refine iff_of_false (fun hmem => ?_) ?_
    · cases List.mem_singleton.mp hmem
    · exact not_informs (fun _ _ he => by cases he) caller command' result
  | queuesStop hsubmit =>
    obtain ⟨_, rfl⟩ := submitStop_eq_true hsubmit
    refine h.silent hl (not_informs fun _ _ he => nomatch he) (fun caller hc => ?_)
      (Nat.le_refl _) rfl
    rw [List.filterMap_append] at hc
    exact .inl ((List.mem_append.mp hc).resolve_right List.not_mem_nil)
  | leaves caller =>
    exact h.silent hl (not_informs fun _ _ he => nomatch he) (fun caller hc => .inl hc)
      (Nat.le_refl _) rfl
  | @handles errand rest draws hq =>
    cases errand with
    | stop => exact h.handles_stop hl hq draws
    | request caller command => exact h.handles_request hl hq draws

end Informed

/-! ## Serial runs -/

variable {o : WorkerSystem}

theorem lined_informed (h : Run (opened db) past o) :
    Lined db past o.worker ∧ Informed db past o := by
  induction h with
  | nil => exact ⟨lined_opened, informed_opened⟩
  | snoc run step ih => exact ⟨ih.1.step step, ih.2.step ih.1 step⟩

/-- Whatever callers do while the worker handles their errands, it comes to what their requests come
to one after another. -/
theorem run_serial (h : Run (opened db) past o) : Serial db past o := by
  obtain ⟨hl, hi⟩ := lined_informed h
  refine ⟨hl.inOrder, hl.callers_nodup, hl.database, hi.told_iff, hi.told_once, ?_, hi.told_refused,
    fun hs => ⟨fun command => ?_, fun p o' hstep => ?_⟩⟩
  · intro caller command draws o' hstep hwrite hleft
    cases hstep with
    | handles _ hq =>
      have ha : command.isWrite = true ∧ caller ∈ o.worker.gone :=
        ⟨hwrite, (hl.gone_iff caller).mpr hleft⟩
      obtain ⟨hw, hnotifications⟩ := handleNext_abandoned draws hq ha
      rw [hw, hnotifications]
      exact ⟨rfl, List.append_nil _⟩
  · simp [Worker.submit, hl.stopped_iff.mpr hs]
  · have hstopped := hl.stopped_iff.mpr hs
    cases hstep with
    | queues command hsubmit =>
      rw [(submit_eq_some hsubmit).1] at hstopped
      cases hstopped
    | refuses command hsubmit =>
      rw [(submit_eq_none hsubmit).2]
      exact ⟨rfl, fun _ _ he => nomatch he⟩
    | queuesStop hsubmit =>
      rw [(submitStop_eq_true hsubmit).1] at hstopped
      cases hstopped
    | leaves caller => exact ⟨rfl, fun _ _ he => nomatch he⟩
    | handles draws hq => exact absurd hs (hl.not_stopped_of_cons hq)

/-! ### A worker until it stops -/

def lobby (code : String) : Command := .insert ⟨"10.0.0.5", .last 65535, code, .epoch⟩

/-- Callers 0 and 1 ask for an insert and caller 2 for a listing. While the first of them is served
the second gives up. Caller 3 asks behind a request to stop, and another one after the stop. -/
def lastDay : List Proceeding :=
  [.queues 0 (lobby "ABCDEF"), .queues 1 (lobby "GHJKLM"),
    .handles (.request 0 (lobby "ABCDEF")) {},
    .leaves 1, .queues 2 .list, .queuesStop, .queues 3 (.deleteByCode "ABCDEF"),
    .handles (.request 1 (lobby "GHJKLM")) { numbered := 1 }, .handles (.request 2 .list) {},
    .handles .stop {}, .refuses .list]

theorem run_lastDay : ∃ o, Run (opened {}) lastDay o := by
  have h0 : Run (opened {}) [] _ := .nil
  have h1 := h0.snoc (.queues (lobby "ABCDEF") rfl)
  have h2 := h1.snoc (.queues (lobby "GHJKLM") rfl)
  have h3 := h2.snoc (.handles {} rfl)
  have h4 := h3.snoc (.leaves _ 1)
  have h5 := h4.snoc (.queues .list rfl)
  have h6 := h5.snoc (.queuesStop rfl)
  have h7 := h6.snoc (.queues (.deleteByCode "ABCDEF") rfl)
  have h8 := h7.snoc (.handles { numbered := 1 } rfl)
  have h9 := h8.snoc (.handles {} rfl)
  have h10 := h9.snoc (.handles {} rfl)
  exact ⟨_, h10.snoc (.refuses .list rfl)⟩

/-- Of the inserts only the first counts, and the listing behind it. -/
theorem run_serial_lastDay : ∃ o, Run (opened {}) lastDay o ∧ Serial {} lastDay o ∧
    served [] lastDay = [(lobby "ABCDEF", {}), (.list, {})] := by
  obtain ⟨o, h⟩ := run_lastDay
  exact ⟨o, h, run_serial h, rfl⟩

end WorkerSystem
end Rendezvous
