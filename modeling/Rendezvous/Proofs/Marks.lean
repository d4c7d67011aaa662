import Rendezvous.Proofs.Courses

/-!
# What demands do with the settings

`Demand.Lays` says which patch a demand may lay down: it brings the right token and an object. By
the time that a demand ends, it has done with the settings what its reply tells of:
`Demand.Tells.owns`.
-/

namespace Rendezvous

/-! ## What calls do with the settings -/

inductive Mark
  /-- A patch was laid over the settings; the document is what they are afterwards. -/
  | laid (patch : Fields) (document : Json)
  | read (document : Option Json)

def Outcome.mark? : {command : Command} → Outcome command → Option Mark
  | .merge patch, .answered document => some (.laid patch document)
  | .settings, .answered document => some (.read document)
  | _, _ => none

theorem Outcome.mark?_of_isMiss {command : Command} {outcome : Outcome command}
    (h : outcome.IsMiss) : outcome.mark? = none := by
  cases outcome with
  | answered answer => exact h.elim
  | failed | timedOut => cases command <;> rfl

/-! ## Demands and their replies -/

/-- The demand is for an update, with a token and a body. -/
inductive Demand.Brings : Demand → Option String → Json → Prop
  | call (token : Option String) (body : Json) : Brings (.updateSettings token body) token body
  | http {request : Api.Request} {body : Json} (update : request.IsUpdate)
    (carried : request.Carries Json.parseFirst body) :
    Brings (.http request) (request.headerText? "token") body

/-- The demand lays down the patch: the token that it brings is the right one, and the patch is the
object that it brings. -/
inductive Demand.Lays (guard : Guard) (patch : Fields) (demand : Demand) : Prop
  | intro {token : Option String} {body : Json} (brings : demand.Brings token body)
    (authorized : guard.authorize token = .ok ()) (object : body.fields? = some patch)

namespace Reply

/-- The reply to an update that has led to the document; over HTTP it is only told that it has been
made. -/
inductive Confirms (document : Json) : Reply → Prop
  | document : Confirms document (.document (some document))
  | response {response : Api.Response} (status : response.status = 200) :
    Confirms document (.response response)

inductive Shows (document : Option Json) : Reply → Prop
  | document : Shows document (.document document)
  | response {response : Api.Response} (status : response.status = 200)
    (content : response.content = .document (.ofOption document)) :
    Shows document (.response response)

inductive Refuses : Reply → Prop
  | refused (refusal : Refusal) : Refuses (.refused refusal)
  | response {response : Api.Response} (status : response.status ≠ 200) :
    Refuses (.response response)

end Reply

/-- What a demand did with the settings, by the time that it ends with a reply. -/
inductive Demand.Owns (guard : Guard) (demand : Demand) : Reply → List Mark → Prop
  | changed {patch : Fields} {document : Json} {reply : Reply} (lays : demand.Lays guard patch)
    (confirms : reply.Confirms document) : Owns guard demand reply [.laid patch document]
  | shown {document : Option Json} {reply : Reply} (h : demand.IsOfSettings)
    (shows : reply.Shows document) : Owns guard demand reply [.read document]
  | nothing {reply : Reply} (h : demand.IsOfSettings → reply.Refuses) : Owns guard demand reply []

/-! ## What demands keep to -/

variable {terms : Terms} {guard : Guard} {demand : Demand} {c : Course}

/-- What a demand is about to merge, it lays down. -/
theorem Demand.Allows.lays {patch : Fields}
    (h : demand.Allows terms guard c (.call (.merge patch))) : demand.Lays guard patch := by
  obtain ⟨-, -, hasks | ⟨request, served, rfl, hstands, hasks⟩⟩ := h.call_cases
  · cases hasks with
    | merge authorized object => exact ⟨.call _ _, authorized, object⟩
  · cases hasks with
    | merge authorized object =>
      cases hstands with
      | hosts hr hd => exact (hd trivial).elim
      | update hr carried => exact ⟨.http hr carried, authorized, object⟩

/-- What a demand that was not made over HTTP has done with the settings, by its reply. -/
theorem Demand.Tells.did_mark? {reply : Reply} (h : demand.Tells guard c reply)
    (hh : ∀ request, demand ≠ .http request) :
    (c.did Outcome.mark? = none ∧ (demand.IsOfSettings → ∃ refusal, reply = .refused refusal)) ∨
    (∃ document, demand = .readSettings ∧ reply = .document document ∧
      c.did Outcome.mark? = some (.read document)) ∨
    ∃ token body patch document, demand = .updateSettings token body ∧
      guard.authorize token = .ok () ∧ body.fields? = some patch ∧
      reply = .document (some document) ∧ c.did Outcome.mark? = some (.laid patch document) := by
  cases h with
  | refused hu refusal => exact .inl ⟨hu.did fun _ => rfl, fun _ => ⟨refusal, rfl⟩⟩
  | unavailable ended miss late =>
    exact .inl ⟨(Course.did_of_ended ended).trans (Outcome.mark?_of_isMiss miss),
      fun _ => ⟨_, rfl⟩⟩
  | answered asks ended decides =>
    have hdid := Course.did_of_ended (f := Outcome.mark?) ended
    cases asks with
    | settings =>
      cases decides
      exact .inr (.inl ⟨_, rfl, rfl, hdid⟩)
    | merge authorized object =>
      cases decides
      exact .inr (.inr ⟨_, _, _, _, rfl, authorized, object, rfl, hdid⟩)
    | _ => exact .inl ⟨hdid, fun hs => hs.elim⟩
  | listed ended sub => exact .inl ⟨Course.did_of_ended ended, fun hs => hs.elim⟩
  | authorized token hu => exact .inl ⟨hu.did fun _ => rfl, fun hs => hs.elim⟩
  | http | turnedAway => exact absurd rfl (hh _)

/-- A request is turned away, or its reply is made of that of the demand which it stands for. -/
theorem Demand.Tells.http_cases {request : Api.Request} {reply : Reply}
    (h : (Demand.http request).Tells guard c reply) :
    (c.did Outcome.mark? = none ∧ reply.Refuses) ∨
    ∃ served inner response, reply = .response response ∧ request.StandsFor served ∧
      served.Tells guard c inner ∧ inner.Becomes served response := by
  cases h with
  | refused hu refusal => exact .inl ⟨hu.did fun _ => rfl, .refused refusal⟩
  | unavailable ended miss late =>
    exact .inl ⟨(Course.did_of_ended ended).trans (Outcome.mark?_of_isMiss miss), .refused _⟩
  | turnedAway hu status => exact .inl ⟨hu.did fun _ => rfl, .response status⟩
  | answered asks => cases asks
  | http stands htells becomes => exact .inr ⟨_, _, _, rfl, stands, htells, becomes⟩

/-- A demand has done with the settings what its reply tells of. -/
theorem Demand.Tells.owns {reply : Reply} (h : demand.Tells guard c reply) :
    demand.Owns guard reply (c.did Outcome.mark?).toList := by
  by_cases hh : ∀ request, demand ≠ .http request
  · rcases h.did_mark? hh with ⟨hdid, hrefused⟩ | ⟨document, rfl, rfl, hdid⟩ |
      ⟨token, body, patch, document, rfl, authorized, object, rfl, hdid⟩ <;> rw [hdid]
    · refine .nothing fun hs => ?_
      obtain ⟨refusal, rfl⟩ := hrefused hs
      exact .refused refusal
    · exact .shown trivial .document
    · exact .changed ⟨.call token body, authorized, object⟩ .document
  · obtain ⟨request, rfl⟩ := not_forall_not.mp hh
    rcases h.http_cases with ⟨hdid, hrefuses⟩ |
      ⟨served, inner, response, rfl, stands, htells, becomes⟩
    · rw [hdid]
      exact .nothing fun _ => hrefuses
    rcases htells.did_mark? stands.direct with ⟨hdid, hrefused⟩ | ⟨document, rfl, rfl, hdid⟩ |
      ⟨token, body, patch, document, rfl, authorized, object, rfl, hdid⟩ <;> rw [hdid]
    · refine .nothing fun hs => ?_
      obtain ⟨refusal, rfl⟩ : ∃ refusal, inner = .refused refusal := by
        cases stands with
        | hosts hr hd => exact absurd hs hr
        | read | update => exact hrefused trivial
      cases becomes with
      | refused _ status => exact .response status
      | told hd hr status => exact absurd rfl (hr refusal)
    · cases stands with
      | hosts hr hd => exact (hd trivial).elim
      | read hr =>
        cases becomes with
        | shown document status content => exact .shown hr (.response status content)
        | told hd => exact absurd rfl hd
    · cases stands with
      | hosts hr hd => exact (hd trivial).elim
      | update hr carried =>
        cases becomes with
        | told hd _ status =>
          exact .changed ⟨.http hr carried, authorized, object⟩ (.response status)

end Rendezvous
