import Rendezvous.Api.Handler
import Rendezvous.Simulation.Run

/-!
# Requests and service calls

A request that fits a row of the table of routes is answered with what one call of a service leads
to, on the decoded parameter and the body, and leaves behind what that call leaves behind. A body
that cannot be taken is refused before any call.
-/

namespace Rendezvous

/-! ## Runs of one interaction after another -/

namespace Interaction

variable {α β : Type}

theorem run_bind (i : Interaction α) (f : α → Interaction β) (w : World) :
    (i.bind f).run w = (f (i.run w).1).run (i.run w).2 := by
  induction i generalizing w with
  | done value => rfl
  | readClock next ih => exact ih _ _
  | draw next ih => exact ih _ _
  | call command limit next ih => exact ih _ _
  | evict hosts limit next ih => exact ih _ _
  | log event next ih => exact ih _

theorem run_map (i : Interaction α) (f : α → β) (w : World) :
    (i.map f).run w = (f (i.run w).1, (i.run w).2) :=
  run_bind i _ w

end Interaction

theorem Guard.authorize_cases (guard : Guard) (presented : Option String) :
    guard.authorize presented = .ok () ∨ guard.authorize presented = .error .unauthorized := by
  unfold Guard.authorize
  split
  · split
    · exact .inl rfl
    · exact .inr rfl
  · exact .inr rfl

def Attempt.told {α : Type} (attempt : Attempt α) (print : α → String) : Attempt String :=
  attempt.map (·.map print)

namespace Api

/-! ## The table of routes -/

/-- The rows of the table, a method and a path each. -/
inductive Row
  | register
  | list
  | find
  | delete
  | refresh
  | findByCode
  | deleteByCode
  | readSettings
  | updateSettings
  deriving DecidableEq

namespace Row

def method : Row → String
  | .register | .refresh | .updateSettings => "POST"
  | .list | .find | .findByCode | .readSettings => "GET"
  | .delete | .deleteByCode => "DELETE"

/-- The parts of the path; `none` is the parameter. -/
def pattern : Row → List (Option String)
  | .register | .list => [some "api", some "hosts"]
  | .find | .delete => [some "api", some "hosts", none]
  | .refresh => [some "api", some "hosts", none, some "refresh"]
  | .findByCode | .deleteByCode => [some "api", some "hosts", some "code", none]
  | .readSettings | .updateSettings => [some "api", some "config"]

/-- The request has the method and the path of the row. The parameter, if the row has one, is a text
that is not empty and stands for `value`. -/
structure Fits (row : Row) (r : Request) (text value : String) : Prop where
  method : r.method = row.method
  path : segments (pathOf r.target) = "" :: row.pattern.map (·.getD text)
  parameter : none ∈ row.pattern → text ≠ "" ∧ Percent.decode? text = some value

/-- The request has the method and the path of the row, with a text for the parameter, if the row
has one. The last part of a path is not empty. -/
structure Matches (row : Row) (r : Request) (text : String) : Prop where
  method : r.method = row.method
  path : segments (pathOf r.target) = "" :: row.pattern.map (·.getD text)
  last : row.pattern.getLast? = some none → text ≠ ""

theorem Fits.matches {row : Row} {r : Request} {text value : String}
    (h : row.Fits r text value) : row.Matches r text :=
  ⟨h.method, h.path, fun hlast => (h.parameter (List.mem_of_getLast? hlast)).1⟩

end Row

/-! ## Bodies -/

def Request.IsJson (r : Request) : Prop :=
  ∃ type, r.headerText? "content-type" = some type ∧ MediaType.isJson type = true

variable {α : Type} {parse : List UInt8 → Except Json.Failure α}

/-- The body is JSON, not too large, and read as a value. -/
structure Request.Carries (r : Request) (parse : List UInt8 → Except Json.Failure α) (v : α) :
    Prop where
  json : r.IsJson
  short : r.body.length ≤ bodyLimit
  parsed : parse r.body = .ok v

/-- Why a body is not taken, as the caller is told. -/
inductive Request.Spoiled (r : Request) (parse : List UInt8 → Except Json.Failure α) :
    String → Prop
  | notJson (h : ¬ r.IsJson) : Spoiled r parse "Body must be JSON."
  | tooLarge (json : r.IsJson) (h : bodyLimit < r.body.length) :
    Spoiled r parse "Failed to buffer the request body: length limit exceeded"
  | malformed (json : r.IsJson) (short : r.body.length ≤ bodyLimit) {failure : Json.Failure}
    (h : parse r.body = .error failure) : Spoiled r parse (BodyFault.malformed failure).message

theorem isJson_iff {r : Request} :
    (r.headerText? "content-type").any MediaType.isJson = true ↔ r.IsJson := by
  rw [Option.any_eq_true, Request.IsJson]

/-- A body is carried or spoiled. -/
theorem payload_cases (parse : List UInt8 → Except Json.Failure α) (r : Request) :
    (∃ v, r.Carries parse v ∧ payload parse r = .ok v) ∨
      ∃ fault, r.Spoiled parse fault.message ∧ payload parse r = .error fault := by
  unfold payload
  by_cases hjson : r.IsJson
  · rw [if_neg (not_not_intro (isJson_iff.mpr hjson))]
    by_cases hlarge : bodyLimit < r.body.length
    · rw [if_pos hlarge]
      exact .inr ⟨.tooLarge, .tooLarge hjson hlarge, rfl⟩
    · rw [if_neg hlarge]
      cases hparse : parse r.body with
      | ok v => exact .inl ⟨v, ⟨hjson, Nat.le_of_not_lt hlarge, hparse⟩, rfl⟩
      | error failure =>
        exact .inr ⟨.malformed failure, .malformed hjson (Nat.le_of_not_lt hlarge) hparse, rfl⟩
  · rw [if_pos (fun h => hjson (isJson_iff.mp h))]
    exact .inr ⟨.notJson, .notJson hjson, rfl⟩

/-! ## Images of calls -/

/-- The one call of a service that a request asks for by a row, on the decoded parameter or the
body, with the JSON of the call's value. -/
inductive Row.Asks (terms : Terms) (guard : Guard) (r : Request) (value : String) :
    Row → Attempt String → Prop
  | register {a : Announcement} (body : r.Carries Announcement.shape.parseFirst a) :
    Asks terms guard r value .register ((Directory.register terms a).told Host.print)
  | list : Asks terms guard r value .list ((Directory.listLive terms).told Host.printAll)
  | find : Asks terms guard r value .find ((Directory.findById terms value).told Host.print)
  | delete : Asks terms guard r value .delete
      ((Directory.deleteById terms value).told fun h => (Departure.of h).print)
  | refresh : Asks terms guard r value .refresh ((Directory.refresh terms value).told Host.print)
  | findByCode :
    Asks terms guard r value .findByCode ((Directory.findByCode terms value).told Host.print)
  | deleteByCode : Asks terms guard r value .deleteByCode
      ((Directory.deleteByCode terms value).told fun h => (Departure.of h).print)
  | readSettings :
    Asks terms guard r value .readSettings (guard.read.told fun doc => (doc.getD .null).print)
  | updateSettings {body : Json} (carried : r.Carries Json.parseFirst body) :
    Asks terms guard r value .updateSettings
      ((guard.update (r.headerText? "token") body).told fun _ =>
        (Json.object [("success", .bool true)]).print)

def complaint (message : String) : String := (Json.object [("body", .string message)]).print

def statusCode {α : Type} : Except Refusal α → Nat
  | .ok _ => 200
  | .error .notFound => 404
  | .error .noAddress | .error .noPort | .error .notAnObject => 400
  | .error .unauthorized => 401
  | .error (.unavailable _) | .error (.full _) => 503

def resultText : Except Refusal String → String
  | .ok text => text
  | .error refusal => complaint refusal.message

/-- The world behind the response: the log is told of what is the service's fault. -/
def worldAfter {α : Type} : Except Refusal α → World → World
  | .error (.unavailable trouble), w =>
    w.note (.requestFailed (Refusal.unavailable trouble).message)
  | .error (.full attempts), w => w.note (.requestFailed (Refusal.full attempts).message)
  | _, w => w

/-- In every world the handling comes to what the call comes to there. -/
def Images (handling : Interaction Response) (call : Attempt String) : Prop :=
  ∀ w : World, ∃ response,
    handling.run w = (response, worldAfter (call.run w).1 (call.run w).2) ∧
    response.status = statusCode (call.run w).1 ∧ response.text = resultText (call.run w).1 ∧
    response.content.mediaType? = some "application/json"

/-- The handling asks for nothing, leaves every world as it is, and ends with a refusal. -/
def Refuses (handling : Interaction Response) (status : Nat) (message : String) : Prop :=
  ∃ response, handling = .done response ∧ (∀ w : World, handling.run w = (response, w)) ∧
    response.status = status ∧ response.text = complaint message ∧
    response.content.mediaType? = some "application/json"

/-- How a request that fits a row is served: it is the image of a call, or it is refused for its
body, which for the settings happens only to those who presented the token. -/
inductive Row.Served (terms : Terms) (guard : Guard) (r : Request) (value : String) :
    Row → Interaction Response → Prop
  | answered {row : Row} {handling : Interaction Response} {call : Attempt String}
    (asks : row.Asks terms guard r value call) (images : Images handling call) :
    Served terms guard r value row handling
  | badAnnouncement {handling : Interaction Response} {message : String}
    (spoiled : r.Spoiled Announcement.shape.parseFirst message)
    (refuses : Refuses handling 400 message) : Served terms guard r value .register handling
  | badSettings {handling : Interaction Response} {message : String}
    (authorized : guard.authorize (r.headerText? "token") = .ok ())
    (spoiled : r.Spoiled Json.parseFirst message) (refuses : Refuses handling 400 message) :
    Served terms guard r value .updateSettings handling
  | unauthorized {handling : Interaction Response}
    (unauthorized : guard.authorize (r.headerText? "token") = .error .unauthorized)
    (refuses : Refuses handling 401 "invalid API key") :
    Served terms guard r value .updateSettings handling

/-! ## Handling -/

def Response.whole (response : Response) : Response := { response with bodiless := false }

namespace Row

def verb : Row → Verb
  | .register | .refresh | .updateSettings => .post
  | .list | .find | .findByCode | .readSettings => .get
  | .delete | .deleteByCode => .delete

def resource (text : String) : Row → Resource
  | .register | .list => .hosts
  | .find | .delete => .host text
  | .refresh => .refreshed text
  | .findByCode | .deleteByCode => .hostByCode text
  | .readSettings | .updateSettings => .config

variable {row : Row} {r : Request} {text value : String}

/-- A path leads to the resource of its row, but `refresh` behind `code` is a join code. -/
theorem Matches.resource (h : row.Matches r text) (hcode : row = .refresh → text ≠ "code") :
    resource? r.target = some (row.resource text) := by
  have hpath := h.path
  rw [resource?, hpath]
  cases row with
  | register | list | readSettings | updateSettings => rfl
  | find | delete =>
    have htext : text ≠ "" := h.last rfl
    simp only [pattern, List.map_cons, List.map_nil, Option.getD_some, Option.getD_none,
      if_neg htext, Row.resource]
  | refresh =>
    have hother : ¬ (text = "code" ∧ "refresh" ≠ "") := fun hboth => hcode rfl hboth.1
    simp only [pattern, List.map_cons, List.map_nil, Option.getD_some, Option.getD_none,
      if_neg hother, if_true, Row.resource]
  | findByCode | deleteByCode =>
    have htext : text ≠ "" := h.last rfl
    simp only [pattern, List.map_cons, List.map_nil, Option.getD_some, Option.getD_none, htext,
      ne_eq, not_false_eq_true, and_self, if_true, Row.resource]

theorem Matches.handle (h : row.Matches r text) (hcode : row = .refresh → text ≠ "code")
    (terms : Terms) (guard : Guard) : handle terms guard r =
      (serve terms guard r (row.resource text) row.verb).map Response.whole := by
  have hmethod := h.method
  rw [Api.handle, h.resource hcode, hmethod]
  cases row <;> rfl

theorem Fits.handle (h : row.Fits r text value) (hcode : row = .refresh → text ≠ "code")
    (terms : Terms) (guard : Guard) : handle terms guard r =
      (serve terms guard r (row.resource text) row.verb).map Response.whole :=
  h.matches.handle hcode terms guard

end Row

theorem images_respond (attempt : Attempt α) {content : α → Content} {print : α → String}
    (htext : ∀ v, (content v).text = print v)
    (htype : ∀ v, (content v).mediaType? = some "application/json") :
    Images ((respond attempt content).map Response.whole) (attempt.told print) := by
  intro w
  rw [Interaction.run_map, respond, Interaction.run_bind, Attempt.told, Interaction.run_map]
  generalize attempt.run w = ran
  obtain ⟨result, after⟩ := ran
  cases result with
  | ok v => exact ⟨_, rfl, rfl, htext v, htype v⟩
  | error refusal => cases refusal <;> exact ⟨_, rfl, rfl, rfl, rfl⟩

theorem refuses_fault (fault : BodyFault) :
    Refuses ((Interaction.done (.ofBodyFault fault)).map Response.whole) 400 fault.message :=
  ⟨_, rfl, fun _ => rfl, rfl, rfl, rfl⟩

section

variable (terms : Terms) (guard : Guard) (r : Request) (value : String)

theorem served_register :
    Row.register.Served terms guard r value ((register terms r).map Response.whole) := by
  unfold register
  rcases payload_cases Announcement.shape.parseFirst r with
    ⟨a, hcarries, hpayload⟩ | ⟨fault, hspoiled, hpayload⟩
  · rw [hpayload]
    exact .answered (.register hcarries) (images_respond _ (fun _ => rfl) fun _ => rfl)
  · rw [hpayload]
    exact .badAnnouncement hspoiled (refuses_fault fault)

theorem served_updateSettings :
    Row.updateSettings.Served terms guard r value
      ((updateSettings guard r).map Response.whole) := by
  unfold updateSettings
  rcases guard.authorize_cases (r.headerText? "token") with htoken | htoken
  · rcases payload_cases Json.parseFirst r with
      ⟨body, hcarries, hpayload⟩ | ⟨fault, hspoiled, hpayload⟩
    · simp only [htoken, hpayload]
      exact .answered (.updateSettings hcarries) (images_respond _ (fun _ => rfl) fun _ => rfl)
    · simp only [htoken, hpayload]
      exact .badSettings htoken hspoiled (refuses_fault fault)
  · simp only [htoken]
    exact .unauthorized htoken ⟨_, rfl, fun _ => rfl, rfl, rfl, rfl⟩

end

variable {row : Row} {r : Request} {text value : String}

/-- A request that fits a row is served as the row says, save for a refresh of the id `code`. -/
theorem fitting_served (terms : Terms) (guard : Guard) (h : row.Fits r text value)
    (hcode : row = .refresh → text ≠ "code") :
    row.Served terms guard r value (handle terms guard r) := by
  rw [h.handle hcode]
  have hvalue (hrow : none ∈ row.pattern) (name : String) (next : String → Interaction Response) :
      withParameter name text next = next value := by
    simp only [withParameter, (h.parameter hrow).2]
  cases row with
  | register => exact served_register terms guard r value
  | list => exact .answered .list (images_respond _ (fun _ => rfl) fun _ => rfl)
  | find =>
    simp only [serve, Row.resource, Row.verb, hvalue (by decide)]
    exact .answered .find (images_respond _ (fun _ => rfl) fun _ => rfl)
  | delete =>
    simp only [serve, Row.resource, Row.verb, hvalue (by decide)]
    exact .answered .delete (images_respond _ (fun _ => rfl) fun _ => rfl)
  | refresh =>
    simp only [serve, Row.resource, Row.verb, hvalue (by decide)]
    exact .answered .refresh (images_respond _ (fun _ => rfl) fun _ => rfl)
  | findByCode =>
    simp only [serve, Row.resource, Row.verb, hvalue (by decide)]
    exact .answered .findByCode (images_respond _ (fun _ => rfl) fun _ => rfl)
  | deleteByCode =>
    simp only [serve, Row.resource, Row.verb, hvalue (by decide)]
    exact .answered .deleteByCode (images_respond _ (fun _ => rfl) fun _ => rfl)
  | readSettings =>
    refine .answered .readSettings (images_respond _ (fun doc => ?_) fun _ => rfl)
    cases doc <;> rfl
  | updateSettings => exact served_updateSettings terms guard r value

def encodedDelete : Request := { method := "DELETE", target := "/api/hosts/code/3F%419C0?now" }

theorem fits_encodedDelete : Row.deleteByCode.Fits encodedDelete "3F%419C0" "3FA9C0" :=
  ⟨rfl, by decide, fun _ => ⟨by decide, by decide +kernel⟩⟩

theorem fitting_served_encoded : Row.deleteByCode.Fits encodedDelete "3F%419C0" "3FA9C0" ∧
    Row.deleteByCode.Served {} {} encodedDelete "3FA9C0" (handle {} {} encodedDelete) :=
  ⟨fits_encodedDelete, fitting_served {} {} fits_encodedDelete fun h => by cases h⟩

theorem statusCode_ne (result : Except Refusal String) : statusCode result ≠ 405 := by
  cases result with
  | ok _ => exact Nat.ne_of_beq_eq_false rfl
  | error refusal => cases refusal <;> exact Nat.ne_of_beq_eq_false rfl

def refreshCode : Request := { method := "POST", target := "/api/hosts/code/refresh" }

/-- The path of a refresh is taken for a join code when its id is `code`, and no join code can be
posted to. -/
theorem not_every_fitting_served : ¬ ∀ (terms : Terms) (guard : Guard) (row : Row) (r : Request)
    (text value : String), row.Fits r text value →
      row.Served terms guard r value (handle terms guard r) := by
  intro hall
  have hfits : Row.refresh.Fits refreshCode "code" "code" :=
    ⟨rfl, by decide, fun _ => ⟨by decide, by decide +kernel⟩⟩
  have hhandle : handle {} {} refreshCode
      = .done { status := 405, allow := some "GET,HEAD,DELETE" } := by
    have hresource : resource? refreshCode.target = some (.hostByCode "refresh") := by decide
    rw [handle, hresource]
    rfl
  cases hall {} {} .refresh refreshCode "code" "code" hfits with
  | answered asks images =>
    obtain ⟨response, hrun, hstatus, -⟩ := images { clock := .epoch, backing := .memory {} }
    rw [hhandle] at hrun
    rw [← (Prod.mk.inj hrun).1] at hstatus
    exact statusCode_ne _ hstatus.symm

end Api
end Rendezvous
