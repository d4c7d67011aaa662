import Rendezvous.Host.Wire
import Rendezvous.Service.Refusal
import Rendezvous.Text.Utf8

/-!
# Requests and responses

What comes in over HTTP and what goes out. A response's body is kept as what it tells; its text
and content type follow from that.
-/

namespace Rendezvous.Api

structure Request where
  method : String
  /-- The target as it was sent, with its query. -/
  target : String
  headers : List (String × List UInt8) := []
  body : List UInt8 := []

namespace Request

/-- The value of the first header of a name; names do not depend on case. -/
def header? (r : Request) (name : String) : Option (List UInt8) :=
  (r.headers.find? fun h => h.1.map Char.toLower == name).map (·.2)

def visible? (value : List UInt8) : Option String :=
  if value.all fun b => b == 9 || (32 ≤ b.toNat && b.toNat < 127) then
    some (String.ofList (value.map fun b => Char.ofNat b.toNat))
  else none

def headerText? (r : Request) (name : String) : Option String := (r.header? name).bind visible?

end Request

/-- Why the body of a request was not taken. -/
inductive BodyFault
  | notJson
  | tooLarge
  | malformed (failure : Json.Failure)
  deriving DecidableEq, Repr

def BodyFault.message : BodyFault → String
  | .notJson => "Body must be JSON."
  | .tooLarge => "Failed to buffer the request body: length limit exceeded"
  | .malformed failure =>
    (if failure.cause.isShape then "Failed to deserialize the JSON body into the target type: "
      else "Failed to parse the request body as JSON: ") ++ failure.messageWithPath

inductive Content
  | nothing
  | host (host : Host)
  | hosts (hosts : List Host)
  | departure (departure : Departure)
  | document (document : Json)
  /-- Why the request failed. -/
  | complaint (message : String)
  /-- A line that is no JSON. -/
  | plain (line : String)

def Content.text : Content → String
  | .nothing => ""
  | .host h => h.print
  | .hosts hs => Host.printAll hs
  | .departure d => d.print
  | .document v => v.print
  | .complaint message => Json.print (.object [("body", .string message)])
  | .plain line => line

def Content.mediaType? : Content → Option String
  | .nothing => none
  | .plain _ => some "text/plain; charset=utf-8"
  | _ => some "application/json"

structure Response where
  status : Nat
  content : Content := .nothing
  /-- The methods that the target does take. -/
  allow : Option String := none
  /-- The body is held back; its content type is not. -/
  bodiless : Bool := false

namespace Response

def text (r : Response) : String := if r.bodiless then "" else r.content.text

def ok (content : Content) : Response := { status := 200, content }

def statusOf : RefusalKind → Nat
  | .notFound => 404
  | .invalidInput => 400
  | .unauthorized => 401
  | .unavailable => 503
  | .full => 503

def ofRefusal (refusal : Refusal) : Response :=
  { status := statusOf refusal.kind, content := .complaint refusal.message }

def ofBodyFault (fault : BodyFault) : Response :=
  { status := 400, content := .complaint fault.message }

end Response
end Rendezvous.Api
