import Rendezvous.Proofs.Conduct

/-!
# What requests ask of the world

A request does what the demand does that it stands for, and its response is made of the reply to
that. `Demand.keeps` says of every demand, made over HTTP or not, what it asks of the world.
-/

namespace Rendezvous
namespace Api

variable {α : Type} {r : Request}

theorem isOfSettings_iff : r.IsOfSettings ↔ resource? r.target = some .config := by
  constructor
  · intro h
    rw [resource?, h]
    rfl
  · intro h
    unfold resource? at h
    split at h
    · cases h
    · assumption
    · split at h <;> cases h
    · split at h
      · cases h
      · split at h <;> cases h
    · cases h

theorem method_of_post {method : String} (h : Verb.ofMethod? method = some .post) :
    method = "POST" := by
  unfold Verb.ofMethod? at h
  split at h
  · cases h
  · cases h
  · rfl
  · cases h
  · cases h

theorem status_ofRefusal (refusal : Refusal) : (Response.ofRefusal refusal).status ≠ 200 := by
  cases refusal <;> exact Nat.ne_of_beq_eq_false rfl

section

variable (terms : Terms) (guard : Guard)

/-- The handling of a request keeps to what the request may ask for. -/
def Request.Keeps (r : Request) (handling : Interaction Response) : Prop :=
  handling.Keeps ((Demand.http r).May terms guard)
    (fun c response => (Demand.http r).Ends guard c (.response response)) {}

end

variable {terms : Terms} {guard : Guard}

theorem tells_bodiless {c : Course} {response : Response}
    (h : (Demand.http r).Tells guard c (.response response)) (bodiless : Bool) :
    (Demand.http r).Tells guard c (.response { response with bodiless }) := by
  cases h with
  | answered asks => cases asks
  | turnedAway hu status => exact .turnedAway hu status
  | http stands htells becomes =>
    refine .http stands htells ?_
    cases becomes with
    | refused refusal status => exact .refused refusal status
    | shown document status content => exact .shown document status content
    | told hd hr status => exact .told hd hr status

theorem keeps_done {response : Response} (h : response.status ≠ 200) :
    r.Keeps terms guard (.done response) :=
  ⟨rfl, .turnedAway (.inl rfl) h⟩

theorem keeps_complain {c : Course} (howed : c.owed = 0) (refusal : Refusal)
    (h : (Demand.http r).Tells guard c (.response (.ofRefusal refusal))) :
    (complain refusal).Keeps ((Demand.http r).May terms guard)
      (fun c response => (Demand.http r).Ends guard c (.response response)) c := by
  unfold complain
  dsimp only
  split
  · exact ⟨⟨howed.symm, .complaint _⟩, howed, h.of_ended rfl⟩
  · exact ⟨howed, h⟩

/-- The request is answered with what comes of the demand that it stands for. -/
theorem keeps_respond {demand : Demand} (stands : r.StandsFor demand) {attempt : Attempt α}
    {reply : α → Reply} (h : (attempt.map (.ofAttempt reply)).Keeps (demand.May terms guard)
      (demand.Ends guard) {}) {content : α → Content}
    (hcontent : ∀ v, (reply v).Becomes demand (.ok (content v))) :
    r.Keeps terms guard (respond attempt content) := by
  have hmay (c : Course) (q : Query) (h : demand.May terms guard c q) :
      (Demand.http r).May terms guard c q := ⟨h.reports, .http stands h.allows⟩
  refine Interaction.keeps_bind.mpr ((Interaction.keeps_map.mp h).mono hmay fun c result h => ?_)
  cases result with
  | ok v => exact ⟨h.reported, .http stands h.tells (hcontent v)⟩
  | error refusal =>
    exact keeps_complain h.reported refusal
      (.http stands h.tells (.refused refusal (status_ofRefusal refusal)))

theorem keeps_withParameter {name text : String} {next : String → Interaction Response}
    (h : ∀ value, r.Keeps terms guard (next value)) :
    r.Keeps terms guard (withParameter name text next) := by
  unfold withParameter
  split
  · exact h _
  · exact keeps_done (Nat.ne_of_beq_eq_false rfl)

/-- A request that is not about the settings. -/
theorem keeps_hosts (hr : ¬ r.IsOfSettings) (demand : Demand) (reply : α → Reply)
    (hd : ¬ demand.IsOfSettings) (hh : ∀ request, demand ≠ .http request)
    (hreply : ∀ v refusal, reply v ≠ .refused refusal) {attempt : Attempt α}
    (hi : demand.interaction terms guard = attempt.map (.ofAttempt reply)) (content : α → Content) :
    r.Keeps terms guard (respond attempt content) := by
  have hkeeps := demand.keeps_direct terms guard hh
  rw [hi] at hkeeps
  refine keeps_respond (.hosts hr hd hh) hkeeps fun v => .told ?_ (hreply v) rfl
  rintro rfl
  exact hd trivial

theorem keeps_register (hr : ¬ r.IsOfSettings) : r.Keeps terms guard (register terms r) := by
  unfold register
  split
  · rename_i a _
    exact keeps_hosts hr (.register a) .host id nofun (fun _ _ => nofun) rfl _
  · exact keeps_done (Nat.ne_of_beq_eq_false rfl)

theorem keeps_updateSettings (hr : r.IsUpdate) :
    r.Keeps terms guard (updateSettings guard r) := by
  unfold updateSettings
  dsimp only
  split
  · exact keeps_complain rfl _ (.turnedAway (.inl rfl) (status_ofRefusal _))
  · rcases payload_cases Json.parseFirst r with
      ⟨body, hcarries, hpayload⟩ | ⟨fault, -, hpayload⟩
    · rw [hpayload]
      exact keeps_respond (.update hr hcarries) (Demand.keeps_direct terms guard nofun)
        fun v => .told nofun nofun rfl
    · rw [hpayload]
      exact keeps_done (Nat.ne_of_beq_eq_false rfl)

theorem keeps_serve {resource : Resource} {verb : Verb}
    (hresource : resource? r.target = some resource) (hverb : Verb.ofMethod? r.method = some verb)
    (htakes : verb ∈ resource.verbs) : r.Keeps terms guard (serve terms guard r resource verb) := by
  have hother (h : resource ≠ .config) : ¬ r.IsOfSettings := fun hs =>
    h (Option.some.inj (hresource.symm.trans (isOfSettings_iff.mp hs)))
  cases resource with
  | hosts =>
    have hr := hother Resource.noConfusion
    cases verb with
    | get => exact keeps_hosts hr .listLive .hosts id nofun (fun _ _ => nofun) rfl _
    | post | delete => exact keeps_register hr
  | host text =>
    have hr := hother Resource.noConfusion
    cases verb with
    | get =>
      refine keeps_withParameter fun value => ?_
      exact keeps_hosts hr (.findById value) .host id nofun (fun _ _ => nofun) rfl _
    | post | delete =>
      refine keeps_withParameter fun value => ?_
      exact keeps_hosts hr (.deleteById value) .host id nofun (fun _ _ => nofun) rfl _
  | hostByCode text =>
    have hr := hother Resource.noConfusion
    cases verb with
    | get =>
      refine keeps_withParameter fun value => ?_
      exact keeps_hosts hr (.findByCode value) .host id nofun (fun _ _ => nofun) rfl _
    | post | delete =>
      refine keeps_withParameter fun value => ?_
      exact keeps_hosts hr (.deleteByCode value) .host id nofun (fun _ _ => nofun) rfl _
  | refreshed text =>
    refine keeps_withParameter fun value => ?_
    exact keeps_hosts (hother Resource.noConfusion) (.refresh value) .host id nofun
      (fun _ _ => nofun) rfl _
  | config =>
    have hs : r.IsOfSettings := isOfSettings_iff.mpr hresource
    cases verb with
    | get =>
      exact keeps_respond (.read hs) (Demand.keeps_direct terms guard nofun)
        fun v => .shown v rfl rfl
    | post => exact keeps_updateSettings ⟨method_of_post hverb, hs⟩
    | delete => cases htakes with | tail _ h => cases h with | tail _ h => cases h

theorem keeps_handle (r : Request) : r.Keeps terms guard (handle terms guard r) := by
  unfold handle
  split
  · exact keeps_done (Nat.ne_of_beq_eq_false rfl)
  · rename_i resource hresource
    split
    · exact keeps_done (Nat.ne_of_beq_eq_false rfl)
    · rename_i verb hverb
      split
      · rename_i htakes
        have hserve : r.Keeps terms guard (serve terms guard r resource verb) :=
          keeps_serve hresource hverb (List.contains_iff_mem.mp htakes)
        refine Interaction.keeps_map.mpr (hserve.mono (fun _ _ h => h) fun c response h => ?_)
        exact ⟨h.reported, tells_bodiless h.tells _⟩
      · exact keeps_done (Nat.ne_of_beq_eq_false rfl)

end Api

/-- Whatever the world answers, a demand asks for nothing but what it may, and ends as it may. -/
theorem Demand.keeps (terms : Terms) (guard : Guard) (demand : Demand) :
    (demand.interaction terms guard).Keeps (demand.May terms guard) (demand.Ends guard) {} := by
  cases demand with
  | http request => exact Interaction.keeps_map.mpr (Api.keeps_handle request)
  | _ => exact Demand.keeps_direct terms guard nofun

/-! ## What may be asked for -/

namespace Demand.Allows

variable {terms : Terms} {guard : Guard} {demand : Demand} {c : Course}

/-- A call is asked for by the demand, or by the one that a request stands for. -/
theorem call_cases {command : Command} (h : demand.Allows terms guard c (.call command)) :
    c.Unsettled ∧ command.Stems c.read c.drawn ∧ (demand.Asks guard command ∨
      ∃ request served, demand = .http request ∧ request.StandsFor served ∧
        served.Asks guard command) := by
  cases h with
  | call asks stems h => exact ⟨h, stems, .inl asks⟩
  | http stands h =>
    cases h with
    | call asks stems h => exact ⟨h, stems, .inr ⟨_, _, rfl, stands, asks⟩⟩
    | http => exact absurd rfl (stands.direct _)

theorem asks {command : Command} (h : demand.Allows terms guard c (.call command))
    (hh : ∀ request, demand ≠ .http request) : demand.Asks guard command := by
  obtain ⟨-, -, hasks | ⟨request, -, rfl, -⟩⟩ := h.call_cases
  · exact hasks
  · exact absurd rfl (hh request)

/-- A demand other than a listing asks for something until a call has decided it, and from then on
for nothing but notes. -/
theorem unsettled {q : Query} (h : demand.Allows terms guard c q) (hl : demand ≠ .listLive)
    (hh : ∀ request, demand ≠ .http request) (hq : ∀ event, q ≠ .note event) : c.Unsettled := by
  cases h with
  | attempt a h | draw a h | renew id h => exact h
  | call asks stems h => exact h
  | weigh | evict => exact absurd rfl hl
  | note | gaveUp | complaint => exact absurd rfl (hq _)
  | http => exact absurd rfl (hh _)

end Demand.Allows

end Rendezvous
