import Rendezvous.Proofs.Contracts
import Rendezvous.Proofs.Nesting
import Rendezvous.Proofs.Requests

/-!
# Responses that tell why

A request that a handler takes and that fails is answered with a JSON object that tells why,
whatever the world answers in the meantime. `Row.Bypassed` says which requests no handler takes
although they match a row: the router answers those itself, and not in JSON.
-/

namespace Rendezvous.Api

/-! ## Bodies that tell why -/

/-- The body is a JSON object with the single key `body`, which holds a text. -/
def Response.TellsWhy (response : Response) : Prop :=
  ∃ message, Json.parse response.text = .ok (.object [("body", .string message)])

/-- A complaint is read back, whatever its message. -/
theorem parse_complaint (message : String) :
    Json.parse (complaint message) = .ok (.object [("body", .string message)]) := by
  refine Json.parse_print ⟨List.pairwise_singleton _ _, ?_⟩ (Json.numbersSurvive_object ?_)
  · intro f hf
    rw [List.mem_singleton.mp hf]
    trivial
  · intro f hf
    rw [List.mem_singleton.mp hf]
    exact Json.numbersSurvive_string message

/-- A response that is no success tells why, once it is sent whole. -/
def Response.Sound (response : Response) : Prop := 400 ≤ response.status → response.whole.TellsWhy

theorem sound_of_complaint (status : Nat) (message : String) :
    Response.Sound { status, content := .complaint message } :=
  fun _ => ⟨message, parse_complaint message⟩

theorem sound_complain (refusal : Refusal) : (complain refusal).Yields Response.Sound := by
  unfold complain
  dsimp only
  split
  · exact ⟨trivial, sound_of_complaint _ refusal.message⟩
  · exact sound_of_complaint _ refusal.message

theorem sound_respond {α : Type} (attempt : Attempt α) (content : α → Content) :
    (respond attempt content).Yields Response.Sound := by
  refine Interaction.Yields.bind (Interaction.yields_of_forall (fun result => ?_) attempt)
  cases result with
  | ok value => exact fun hstatus => absurd (show 400 ≤ 200 from hstatus) (by decide)
  | error refusal => exact sound_complain refusal

/-! ## Handlers -/

namespace Row

def parameter : Row → String
  | .findByCode | .deleteByCode => "code"
  | _ => "id"

/-- No handler takes the request: the parameter stands for no text, or the path of a refresh is
taken for that of a join code. -/
def Bypassed (row : Row) (text : String) : Prop :=
  row = .refresh ∧ text = "code" ∨ none ∈ row.pattern ∧ Percent.decode? text = none

end Row

section

variable (terms : Terms) (guard : Guard) {row : Row} {r : Request} {text : String}

theorem sound_serve (h : none ∈ row.pattern → Percent.decode? text ≠ none) :
    (serve terms guard r (row.resource text) row.verb).Yields Response.Sound := by
  have hparameter (hrow : none ∈ row.pattern) (name : String)
      {next : String → Interaction Response} (hnext : ∀ v, (next v).Yields Response.Sound) :
      (withParameter name text next).Yields Response.Sound := by
    unfold withParameter
    split
    · exact hnext _
    · next hnone => exact absurd hnone (h hrow)
  cases row with
  | register =>
    show (register terms r).Yields Response.Sound
    unfold register
    split
    · exact sound_respond _ _
    · next fault _ => exact sound_of_complaint 400 fault.message
  | list => exact sound_respond _ _
  | find | delete | refresh | findByCode | deleteByCode =>
    exact hparameter (by decide) _ fun _ => sound_respond _ _
  | readSettings => exact sound_respond _ _
  | updateSettings =>
    show (updateSettings guard r).Yields Response.Sound
    unfold updateSettings
    dsimp only
    split
    · exact sound_complain _
    · split
      · next fault _ => exact sound_of_complaint 400 fault.message
      · exact sound_respond _ _

/-- What the router says about a parameter that stands for no text. -/
def Row.undecodable (row : Row) : Response :=
  { status := 400,
    content := .plain ("Invalid URL: Invalid UTF-8 in " ++ Json.ticked row.parameter) }

theorem Row.not_tellsWhy_undecodable (row : Row) : ¬ row.undecodable.TellsWhy := by
  rintro ⟨message, hparse⟩
  have hfails : ∃ failure, Json.parse row.undecodable.text = .error failure := by
    cases row <;> exact ⟨_, rfl⟩
  obtain ⟨failure, hfailure⟩ := hfails
  cases hfailure.symm.trans hparse

/-- What the router says about a method that a path does not take: nothing. -/
def otherMethod : Response := { status := 405, allow := some "GET,HEAD,DELETE" }

theorem not_tellsWhy_otherMethod : ¬ otherMethod.TellsWhy := by
  rintro ⟨message, hparse⟩
  cases hparse

/-- The text `code` is a parameter like any other. -/
theorem ne_code_of_undecodable (h : Percent.decode? text = none) : text ≠ "code" := by
  rintro rfl
  have hcode : Percent.decode? "code" = some "code" := by decide +kernel
  cases hcode.symm.trans h

theorem handle_undecodable (h : row.Matches r text) (hrow : none ∈ row.pattern)
    (hnone : Percent.decode? text = none) : handle terms guard r = .done row.undecodable := by
  rw [h.handle fun _ => ne_code_of_undecodable hnone]
  cases row with
  | register | list | readSettings | updateSettings => exact absurd hrow (by decide)
  | find | delete | refresh | findByCode | deleteByCode =>
    simp only [serve, Row.resource, Row.verb, withParameter, hnone]
    rfl

/-- The path of a refresh of the id `code` is that of the join code `refresh`. -/
theorem handle_refreshOfCode (h : Row.refresh.Matches r "code") :
    handle terms guard r = .done otherMethod := by
  have hresource : resource? r.target = some (.hostByCode "refresh") := by
    rw [resource?, h.path]
    rfl
  have hverb : Verb.ofMethod? r.method = some .post := by
    rw [h.method]
    rfl
  rw [handle, hresource]
  simp only [hverb]
  rfl

/-- How requests that match a row are told why they fail. -/
structure Row.Complains (row : Row) (text : String) (handling : Interaction Response) : Prop where
  /-- Whatever the world answers in the meantime, the body of a response to a request that failed
  tells why, unless no handler took the request. -/
  tellsWhy_iff : handling.Yields fun response =>
    400 ≤ response.status → (response.TellsWhy ↔ ¬ row.Bypassed text)
  run : ∀ w : World, 400 ≤ (handling.run w).1.status →
    ((handling.run w).1.TellsWhy ↔ ¬ row.Bypassed text)
  undecodable : none ∈ row.pattern → Percent.decode? text = none →
    handling = .done row.undecodable
  refreshOfCode : row = .refresh → text = "code" → handling = .done otherMethod

/-- Requests that match a row and fail are told why exactly if a handler took them. -/
theorem failing_told (h : row.Matches r text) : row.Complains text (handle terms guard r) := by
  have hundecodable := handle_undecodable terms guard h
  have hrefresh (hrow : row = .refresh) (htext : text = "code") :
      handle terms guard r = .done otherMethod := by
    subst hrow htext
    exact handle_refreshOfCode terms guard h
  have hyields : (handle terms guard r).Yields fun response =>
      400 ≤ response.status → (response.TellsWhy ↔ ¬ row.Bypassed text) := by
    by_cases hbypassed : row.Bypassed text
    · rcases hbypassed with ⟨hrow, htext⟩ | ⟨hrow, hnone⟩
      · rw [hrefresh hrow htext]
        exact fun _ => iff_of_false not_tellsWhy_otherMethod (not_not_intro (.inl ⟨hrow, htext⟩))
      · rw [hundecodable hrow hnone]
        exact fun _ => iff_of_false row.not_tellsWhy_undecodable
          (not_not_intro (.inr ⟨hrow, hnone⟩))
    · rw [h.handle fun hrow htext => hbypassed (.inl ⟨hrow, htext⟩)]
      have hsound : (serve terms guard r (row.resource text) row.verb).Yields Response.Sound :=
        sound_serve terms guard fun hrow hnone => hbypassed (.inr ⟨hrow, hnone⟩)
      exact .bind (hsound.mono fun response hs hstatus => iff_of_true (hs hstatus) hbypassed)
  exact ⟨hyields, hyields.run, hundecodable, hrefresh⟩

end

/-! ### A parameter that is no text -/

/-- A look-up by an id that is percent-encoded, but not as UTF-8. -/
def brokenLookup : Request := { method := "GET", target := "/api/hosts/%FF" }

theorem matches_brokenLookup : Row.find.Matches brokenLookup "%FF" :=
  ⟨rfl, by decide, fun _ => by decide⟩

theorem undecodable_brokenLookup : Percent.decode? "%FF" = none := by decide +kernel

theorem failing_told_broken : Row.find.Matches brokenLookup "%FF" ∧
    Row.find.Complains "%FF" (handle {} {} brokenLookup) ∧ Row.find.Bypassed "%FF" :=
  ⟨matches_brokenLookup, failing_told {} {} matches_brokenLookup,
    .inr ⟨by decide, undecodable_brokenLookup⟩⟩

/-- Not every request that matches a row and fails is told why. -/
theorem not_every_failing_told : ¬ ∀ (terms : Terms) (guard : Guard) (row : Row) (r : Request)
    (text : String) (w : World), row.Matches r text →
    400 ≤ ((handle terms guard r).run w).1.status → ((handle terms guard r).run w).1.TellsWhy := by
  intro hall
  have hhandle : handle {} {} brokenLookup = .done Row.find.undecodable :=
    handle_undecodable {} {} matches_brokenLookup (by decide) undecodable_brokenLookup
  have htells := hall {} {} .find brokenLookup "%FF" { clock := .epoch, backing := .memory {} }
    matches_brokenLookup
  rw [hhandle] at htells
  exact Row.find.not_tellsWhy_undecodable (htells (by decide))

end Rendezvous.Api
