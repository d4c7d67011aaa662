import Rendezvous.Proofs.Contracts
import Rendezvous.Proofs.History
import Rendezvous.Proofs.Secrecy

/-!
# What demands ask of the world

`Demand.Asks` is the table of the commands that demands give to the store, `Demand.Allows` says when
they may, and what else they ask of the world, and `Demand.Ends` with which replies they may end.
`Demand.keeps` is what every demand keeps to, whatever the world answers. Over HTTP a request stands
for one of the other demands, unless it is refused at once.
-/

namespace Rendezvous

/-! ## Commands and replies -/

/-- The candidate of an attempt that had read the clock and drawn an identifier. -/
inductive Candidate.Stems (c : Candidate) : Option Instant → Option Uuid → Prop
  | intro {draw : Uuid} (address : isBlankText c.address = false)
    (code : c.code = JoinCode.ofSeed (Seed.ofDraw c.moment draw)) :
    c.Stems (some c.moment) (some draw)

/-- What a command lays down stems from the last reading and the last draw. -/
def Command.Stems : Command → Option Instant → Option Uuid → Prop
  | .insert candidate, read, drawn => candidate.Stems read drawn
  | .touch _ moment, read, _ => read = some moment
  | _, _, _ => True

def Reply.ofFound (found : Option Host) : Reply := found.elim (.refused .notFound) .host

/-- The reply that an answer of the store leads to, if it alone decides. -/
def Command.reply? : (command : Command) → command.Answer → Option Reply
  | .insert _, host => host.map .host
  | .findById _, found | .findByCode _, found | .deleteById _, found | .deleteByCode _, found
  | .touch _ _, found => some (.ofFound found)
  | .list, _ => none
  | .settings, document => some (.document document)
  | .merge _, document => some (.document (some document))

/-- What the log is told of how a call ended. -/
inductive Outcome.Logs : {command : Command} → Outcome command → Event → Prop
  | registered {candidate : Candidate} (host : Host) :
    Logs (.answered (some host) : Outcome (.insert candidate)) (.registered host)
  | codeTaken {candidate : Candidate} (number : Nat) :
    Logs (.answered none : Outcome (.insert candidate)) (.codeTaken candidate.code number)
  | deletedById {id : String} (host : Host) :
    Logs (.answered (some host) : Outcome (.deleteById id)) (.deleted host)
  | deletedByCode {code : String} (host : Host) :
    Logs (.answered (some host) : Outcome (.deleteByCode code)) (.deleted host)
  | swept {snapshot : List Host} (count total : Nat) :
    Logs (.answered snapshot : Outcome .list) (.swept count total)
  | updated {patch : Fields} (document : Json) :
    Logs (.answered document : Outcome (.merge patch)) .settingsUpdated

def Trouble.isLate : Trouble → Bool
  | .fault _ => false
  | .noResponse _ | .timedOut => true

/-- No call has ended yet, but for inserts whose code was taken. -/
def Course.Unsettled (c : Course) : Prop :=
  c.ended = none ∨ ∃ candidate, c.ended = some ⟨.insert candidate, .answered none⟩

theorem Course.Unsettled.insert_of_ended {c : Course} (h : c.Unsettled) {command : Command}
    {outcome : Outcome command} (hended : c.ended = some ⟨command, outcome⟩) :
    ∃ candidate, command = .insert candidate := by
  rcases h with h | ⟨candidate, h⟩
  · cases hended.symm.trans h
  · exact ⟨candidate, congrArg Sigma.fst (Option.some.inj (hended.symm.trans h))⟩

/-- The host is in the snapshot, and it was expired at the time. -/
def Stale (terms : Terms) (snapshot : List Host) (now : Instant) (host : Host) : Prop :=
  host ∈ snapshot ∧ terms.Expired host.updatedAt now

/-! ## Requests -/

def Api.Request.IsOfSettings (r : Request) : Prop :=
  segments (pathOf r.target) = ["", "api", "config"]

def Demand.IsOfSettings : Demand → Prop
  | .readSettings | .updateSettings _ _ => True
  | .http request => request.IsOfSettings
  | _ => False

/-- What a request asks for, once it is not refused for its path, its token or its body. -/
inductive Api.Request.StandsFor (r : Request) : Demand → Prop
  | hosts {demand : Demand} (hr : ¬ r.IsOfSettings) (hd : ¬ demand.IsOfSettings)
    (hh : ∀ request, demand ≠ .http request) : r.StandsFor demand
  | read (hr : r.IsOfSettings) : r.StandsFor .readSettings
  | update {body : Json} (hr : r.IsUpdate) (carried : r.Carries Json.parseFirst body) :
    r.StandsFor (.updateSettings (r.headerText? "token") body)

theorem Api.Request.StandsFor.direct {r : Request} {demand : Demand} (h : r.StandsFor demand) :
    ∀ request, demand ≠ .http request := by
  cases h with
  | hosts hr hd hh => exact hh
  | read | update => exact nofun

/-- The response that a reply becomes. -/
inductive Reply.Becomes : Demand → Reply → Api.Response → Prop
  | refused {demand : Demand} (refusal : Refusal) {response : Api.Response}
    (status : response.status ≠ 200) : Becomes demand (.refused refusal) response
  | shown (document : Option Json) {response : Api.Response} (status : response.status = 200)
    (content : response.content = .document (.ofOption document)) :
    Becomes .readSettings (.document document) response
  | told {demand : Demand} {reply : Reply} {response : Api.Response}
    (hd : demand ≠ .readSettings) (hr : ∀ refusal, reply ≠ .refused refusal)
    (status : response.status = 200) : Becomes demand reply response

/-! ## The tables -/

section

variable (terms : Terms) (guard : Guard)

/-- The commands that a demand gives to the store. -/
inductive Demand.Asks : Demand → Command → Prop
  | insert (a : Announcement) (candidate : Candidate) : Asks (.register a) (.insert candidate)
  | findById (id : String) : Asks (.findById id) (.findById id)
  | findByCode (code : String) : Asks (.findByCode code) (.findByCode code)
  | deleteById (id : String) : Asks (.deleteById id) (.deleteById id)
  | deleteByCode (code : String) : Asks (.deleteByCode code) (.deleteByCode code)
  | touch (id : String) (moment : Instant) : Asks (.refresh id) (.touch id moment)
  | list : Asks .listLive .list
  | settings : Asks .readSettings .settings
  | merge {token : Option String} {body : Json} {patch : Fields}
    (authorized : guard.authorize token = .ok ()) (object : body.fields? = some patch) :
    Asks (.updateSettings token body) (.merge patch)

/-- What a demand may ask for, as its course stands. -/
inductive Demand.Allows : Demand → Course → Query → Prop
  | attempt {c : Course} (a : Announcement) (h : c.Unsettled) : Allows (.register a) c .clock
  | draw {c : Course} (a : Announcement) (h : c.Unsettled) : Allows (.register a) c .draw
  | renew {c : Course} (id : String) (h : c.Unsettled) : Allows (.refresh id) c .clock
  /-- Once a listing has its snapshot it reads the clock, once. -/
  | weigh {c : Course} {snapshot : List Host}
    (ended : c.ended = some ⟨.list, .answered snapshot⟩) (unread : c.read = none) :
    Allows .listLive c .clock
  | call {demand : Demand} {c : Course} {command : Command} (asks : demand.Asks guard command)
    (stems : command.Stems c.read c.drawn) (h : c.Unsettled) : Allows demand c (.call command)
  | evict {c : Course} {snapshot : List Host} {now : Instant} {hosts : List Host}
    (ended : c.ended = some ⟨.list, .answered snapshot⟩) (read : c.read = some now)
    (stale : ∀ host ∈ hosts, Stale terms snapshot now host) : Allows .listLive c (.evict hosts)
  | note {demand : Demand} {c : Course} {command : Command} {outcome : Outcome command}
    {event : Event} (ended : c.ended = some ⟨command, outcome⟩) (logs : outcome.Logs event) :
    Allows demand c (.note event)
  | gaveUp {c : Course} (a : Announcement) (h : c.Unsettled) (attempts : Nat) :
    Allows (.register a) c (.note (.gaveUp attempts))
  | http {r : Api.Request} {demand : Demand} {c : Course} {q : Query}
    (stands : r.StandsFor demand) (h : Allows demand c q) : Allows (.http r) c q
  | complaint {r : Api.Request} {c : Course} (message : String) :
    Allows (.http r) c (.note (.requestFailed message))

/-- A demand asks only for what it may, and first reports what it owes to the log. -/
structure Demand.May (demand : Demand) (c : Course) (q : Query) : Prop where
  reports : q.report = c.owed
  allows : demand.Allows terms guard c q

/-- The replies with which a demand may end, as its course stands. -/
inductive Demand.Tells : Demand → Course → Reply → Prop
  /-- It is refused before the store is asked, or because all codes were taken. -/
  | refused {demand : Demand} {c : Course} (h : c.Unsettled) (refusal : Refusal) :
    Tells demand c (.refused refusal)
  | unavailable {demand : Demand} {c : Course} {command : Command} {outcome : Outcome command}
    {trouble : Trouble} (ended : c.ended = some ⟨command, outcome⟩) (miss : outcome.IsMiss)
    (late : outcome = .timedOut → trouble.isLate = true) :
    Tells demand c (.refused (.unavailable trouble))
  | answered {demand : Demand} {c : Course} {command : Command} {answer : command.Answer}
    {reply : Reply} (asks : demand.Asks guard command)
    (ended : c.ended = some ⟨command, .answered answer⟩)
    (decides : command.reply? answer = some reply) : Tells demand c reply
  | listed {c : Course} {snapshot live : List Host}
    (ended : c.ended = some ⟨.list, .answered snapshot⟩) (sub : ∀ h ∈ live, h ∈ snapshot) :
    Tells .listLive c (.hosts live)
  | authorized {c : Course} (token : Option String) (h : c.Unsettled) :
    Tells (.authorize token) c .done
  | http {r : Api.Request} {demand : Demand} {c : Course} {reply : Reply}
    {response : Api.Response} (stands : r.StandsFor demand) (h : Tells demand c reply)
    (becomes : reply.Becomes demand response) : Tells (.http r) c (.response response)
  | turnedAway {r : Api.Request} {c : Course} {response : Api.Response} (h : c.Unsettled)
    (status : response.status ≠ 200) : Tells (.http r) c (.response response)

/-- A demand ends with a reply that it may end with, and has reported all that it owed. -/
structure Demand.Ends (demand : Demand) (c : Course) (reply : Reply) : Prop where
  reported : c.owed = 0
  tells : demand.Tells guard c reply

end

/-- How a demand may end goes by how its last call did. -/
theorem Demand.Tells.of_ended {guard : Guard} {demand : Demand} {c c' : Course} {reply : Reply}
    (h : demand.Tells guard c reply) (he : c'.ended = c.ended) : demand.Tells guard c' reply := by
  have hsame {c : Course} (he : c'.ended = c.ended) (h : c.Unsettled) : c'.Unsettled := by
    rwa [Course.Unsettled, he]
  induction h with
  | refused h refusal => exact .refused (hsame he h) refusal
  | unavailable ended miss late => exact .unavailable (he.trans ended) miss late
  | answered asks ended decides => exact .answered asks (he.trans ended) decides
  | listed ended sub => exact .listed (he.trans ended) sub
  | authorized token h => exact .authorized token (hsame he h)
  | http stands h becomes ih => exact .http stands (ih he) becomes
  | turnedAway h status => exact .turnedAway (hsame he h) status

/-! ## Services -/

namespace Attempt

variable {α : Type} {terms : Terms} {guard : Guard} {demand : Demand} {reply : α → Reply}
  {c : Course}

/-- A call that a demand may make, from what the demand does with the answer. -/
theorem keeps_ask {command : Command} {late : Trouble} {next : command.Answer → Attempt α}
    (limit : Nat) (hlate : late.isLate = true) (howed : c.owed = 0) (h : c.Unsettled)
    (hasks : demand.Asks guard command) (hstems : command.Stems c.read c.drawn)
    (hnext : ∀ answer, ((next answer).map (.ofAttempt reply)).Keeps (demand.May terms guard)
      (demand.Ends guard) (c.hears (.answered answer : Outcome command))) :
    ((Attempt.ask command limit late next).map (.ofAttempt reply)).Keeps (demand.May terms guard)
      (demand.Ends guard) c := by
  refine ⟨⟨howed.symm, .call hasks hstems h⟩, fun outcome => ?_⟩
  cases outcome with
  | answered answer => exact hnext answer
  | failed fault => exact ⟨howed, .unavailable rfl trivial nofun⟩
  | timedOut => exact ⟨howed, .unavailable rfl trivial fun _ => hlate⟩

end Attempt

namespace Directory

variable (terms : Terms) {guard : Guard} {demand : Demand} {c : Course}

theorem keeps_found (howed : c.owed = 0) {found : Option Host}
    (htells : demand.Tells guard c (.ofFound found)) :
    (Interaction.map (Reply.ofAttempt .host) (.done (Directory.found found))).Keeps
      (demand.May terms guard) (demand.Ends guard) c := by
  cases found <;> exact ⟨howed, htells⟩

theorem keeps_removed (howed : c.owed = 0) {found : Option Host}
    (hlogs : ∀ host ∈ found, demand.Allows terms guard c (.note (.deleted host)))
    (htells : demand.Tells guard c (.ofFound found)) :
    ((removed found).map (Reply.ofAttempt .host)).Keeps (demand.May terms guard)
      (demand.Ends guard) c := by
  cases found with
  | none => exact ⟨howed, htells⟩
  | some host => exact ⟨⟨howed.symm, hlogs host rfl⟩, howed, htells.of_ended rfl⟩

theorem keeps_tryCodes (a : Announcement) {address : String} (h : isBlankText address = false)
    (port : Port) (left number : Nat) (howed : c.owed = 0) (hu : c.Unsettled) :
    ((tryCodes terms address port left number).map (.ofAttempt .host)).Keeps
      (Demand.May terms guard (.register a)) (Demand.Ends guard (.register a)) c := by
  induction left generalizing number c with
  | zero => exact ⟨⟨howed.symm, .gaveUp a hu _⟩, howed, .refused hu _⟩
  | succ left ih =>
    refine ⟨⟨howed.symm, .attempt a hu⟩, fun now => ⟨⟨howed.symm, .draw a hu⟩, fun draw => ?_⟩⟩
    refine Attempt.keeps_ask _ rfl howed hu (.insert a _) (.intro h rfl) fun host => ?_
    cases host with
    | none =>
      exact ⟨⟨howed.symm, .note rfl (.codeTaken number)⟩, ih (number + 1) howed (.inr ⟨_, rfl⟩)⟩
    | some host =>
      exact ⟨⟨howed.symm, .note rfl (.registered host)⟩, howed, .answered (.insert a _) rfl rfl⟩

/-- What is evicted is stale, and is reported once it is gone. -/
theorem keeps_listLive : ((listLive terms).map (.ofAttempt .hosts)).Keeps
    (Demand.May terms guard .listLive) (Demand.Ends guard .listLive) {} := by
  refine Attempt.keeps_ask _ rfl rfl (.inl rfl) .list trivial fun snapshot => ?_
  refine ⟨⟨rfl, .weigh rfl rfl⟩, fun now => ?_⟩
  simp only [List.partition_eq_filter_filter]
  have hlive : ∀ h ∈ snapshot.filter fun h => Expiry.isLive terms.lifetime h.updatedAt now,
      h ∈ snapshot := fun h hh => (List.mem_filter.mp hh).1
  split
  · exact ⟨rfl, .listed rfl hlive⟩
  · refine ⟨⟨rfl, .evict rfl rfl fun host hmem => ?_⟩, fun removed => ⟨⟨?_, ?_⟩, ?_, ?_⟩⟩
    · rw [List.mem_filter, Function.comp_apply, Bool.not_eq_true', ← Bool.not_eq_true,
        Terms.isLive_iff, Decidable.not_not] at hmem
      exact hmem
    · exact (Nat.zero_add _).symm
    · exact .note rfl (.swept _ _)
    · exact Nat.sub_eq_zero_of_le (Nat.le_of_eq (Nat.zero_add _))
    · exact .listed rfl hlive

end Directory

/-- What demands that are not made over HTTP keep to. -/
theorem Demand.keeps_direct (terms : Terms) (guard : Guard) {demand : Demand}
    (hh : ∀ request, demand ≠ .http request) :
    (demand.interaction terms guard).Keeps (demand.May terms guard) (demand.Ends guard) {} := by
  have hfresh : ({} : Course).Unsettled := .inl rfl
  cases demand with
  | register a =>
    simp only [interaction]
    unfold Directory.register
    split
    · exact ⟨rfl, .refused hfresh _⟩
    · exact ⟨rfl, .refused hfresh _⟩
    · rename_i address _ haddress _
      refine Directory.keeps_tryCodes terms a ?_ _ _ _ rfl hfresh
      simpa using (Option.filter_eq_some_iff.mp haddress).2
  | findById id =>
    exact Attempt.keeps_ask _ rfl rfl hfresh (.findById id) trivial fun found =>
      Directory.keeps_found terms rfl (.answered (.findById id) rfl rfl)
  | findByCode code =>
    exact Attempt.keeps_ask _ rfl rfl hfresh (.findByCode code) trivial fun found =>
      Directory.keeps_found terms rfl (.answered (.findByCode code) rfl rfl)
  | deleteById id =>
    have hasks : Demand.Asks guard (.deleteById id) (.deleteById id) := .deleteById id
    refine Attempt.keeps_ask _ rfl rfl hfresh hasks trivial fun found =>
      Directory.keeps_removed terms rfl (fun host hmem => ?_) (.answered hasks rfl rfl)
    obtain rfl := hmem
    exact .note rfl (.deletedById host)
  | deleteByCode code =>
    have hasks : Demand.Asks guard (.deleteByCode code) (.deleteByCode code) := .deleteByCode code
    refine Attempt.keeps_ask _ rfl rfl hfresh hasks trivial fun found =>
      Directory.keeps_removed terms rfl (fun host hmem => ?_) (.answered hasks rfl rfl)
    obtain rfl := hmem
    exact .note rfl (.deletedByCode host)
  | refresh id =>
    exact ⟨⟨rfl, .renew id hfresh⟩, fun now =>
      Attempt.keeps_ask _ rfl rfl hfresh (.touch id now) rfl fun found =>
        Directory.keeps_found terms rfl (.answered (.touch id now) rfl rfl)⟩
  | listLive => exact Directory.keeps_listLive terms
  | readSettings =>
    exact Attempt.keeps_ask _ rfl rfl hfresh .settings trivial fun document =>
      ⟨rfl, .answered .settings rfl rfl⟩
  | updateSettings token body =>
    simp only [interaction]
    unfold Guard.update
    split
    · exact ⟨rfl, .refused hfresh _⟩
    · rename_i hauthorized
      split
      · exact ⟨rfl, .refused hfresh _⟩
      · rename_i patch hobject
        have hasks := Demand.Asks.merge hauthorized hobject
        exact Attempt.keeps_ask _ rfl rfl hfresh hasks trivial fun document =>
          ⟨⟨rfl, .note rfl (.updated document)⟩, rfl, .answered hasks rfl rfl⟩
  | authorize token =>
    refine ⟨rfl, ?_⟩
    cases guard.authorize token with
    | error refusal => exact .refused hfresh refusal
    | ok _ => exact .authorized token hfresh
  | http request => exact absurd rfl (hh request)

end Rendezvous
