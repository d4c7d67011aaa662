import Rendezvous.Api.MediaType
import Rendezvous.Api.Message
import Rendezvous.Api.Route
import Rendezvous.Service.Settings

/-!
# Handling requests

Each resource and verb is one call of the directory or of the settings. A request is refused
before any call when its path, method, token or body is not as it should be; for a change of the
settings the token comes before the body.
-/

namespace Rendezvous.Api

/-- The most bytes that a body may have. -/
def bodyLimit : Nat := 2097152

def payload {α : Type} (parse : List UInt8 → Except Json.Failure α) (r : Request) :
    Except BodyFault α :=
  if ¬ (r.headerText? "content-type").any MediaType.isJson then .error .notJson
  else if bodyLimit < r.body.length then .error .tooLarge
  else match parse r.body with
    | .ok v => .ok v
    | .error failure => .error (.malformed failure)

/-- Responds with a refusal; the log is told when it is the service's fault. -/
def complain (refusal : Refusal) : Interaction Response :=
  let response := Response.ofRefusal refusal
  if 500 ≤ response.status then .log (.requestFailed refusal.message) (.done response)
  else .done response

def respond {α : Type} (attempt : Attempt α) (content : α → Content) : Interaction Response :=
  attempt.bind fun
    | .ok v => .done (.ok (content v))
    | .error refusal => complain refusal

def withParameter (name text : String) (next : String → Interaction Response) :
    Interaction Response :=
  match Percent.decode? text with
  | some value => next value
  | none =>
    let line := "Invalid URL: Invalid UTF-8 in " ++ Json.ticked name
    .done { status := 400, content := .plain line }

variable (terms : Terms) (guard : Guard)

def register (r : Request) : Interaction Response :=
  match payload Announcement.shape.parseFirst r with
  | .ok a => respond (Directory.register terms a) .host
  | .error fault => .done (.ofBodyFault fault)

def updateSettings (r : Request) : Interaction Response :=
  let token := r.headerText? "token"
  match guard.authorize token with
  | .error refusal => complain refusal
  | .ok () =>
    match payload Json.parseFirst r with
    | .error fault => .done (.ofBodyFault fault)
    | .ok body =>
      respond (guard.update token body) fun _ => .document (.object [("success", .bool true)])

def serve (r : Request) : Resource → Verb → Interaction Response
  | .hosts, .get => respond (Directory.listLive terms) .hosts
  | .hosts, _ => register terms r
  | .host id, .get =>
    withParameter "id" id fun id => respond (Directory.findById terms id) .host
  | .host id, _ =>
    withParameter "id" id fun id =>
      respond (Directory.deleteById terms id) fun h => .departure (.of h)
  | .hostByCode code, .get =>
    withParameter "code" code fun code => respond (Directory.findByCode terms code) .host
  | .hostByCode code, _ =>
    withParameter "code" code fun code =>
      respond (Directory.deleteByCode terms code) fun h => .departure (.of h)
  | .refreshed id, _ =>
    withParameter "id" id fun id => respond (Directory.refresh terms id) .host
  | .config, .get => respond guard.read fun v => .document (Json.ofOption v)
  | .config, _ => updateSettings guard r

def handle (r : Request) : Interaction Response :=
  match resource? r.target with
  | none => .done { status := 404 }
  | some resource =>
    match Verb.ofMethod? r.method with
    | none => .done { status := 405, allow := some resource.allow }
    | some verb =>
      if resource.verbs.contains verb then
        (serve terms guard r resource verb).map fun response =>
          { response with bodiless := r.method == "HEAD" }
      else .done { status := 405, allow := some resource.allow }

end Rendezvous.Api
