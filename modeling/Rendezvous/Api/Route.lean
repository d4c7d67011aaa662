import Rendezvous.Api.Percent

/-!
# Routes

The resources that paths lead to. A path is split at its slashes before anything is decoded, and
`/api/hosts/code/…` is always a join code; the last part of a path must not be empty.
-/

namespace Rendezvous.Api

/-- What a path names; ids and codes are still percent-encoded. -/
inductive Resource
  | hosts
  | host (id : String)
  | hostByCode (code : String)
  | refreshed (id : String)
  | config
  deriving DecidableEq, Repr

inductive Verb
  | get
  | post
  | delete
  deriving DecidableEq, Repr

/-- The path of a target: what comes before `?` and `#`, without scheme and authority. -/
def pathOf (target : String) : List Char :=
  let path := target.toList.takeWhile fun c => c ≠ '?' ∧ c ≠ '#'
  match path with
  | '/' :: _ => path
  | _ =>
    let behind := path.dropWhile (· ≠ ':')
    match behind with
    | ':' :: '/' :: '/' :: rest => rest.dropWhile (· ≠ '/')
    | _ => path

def segments (path : List Char) : List String := (path.splitOn '/').map String.ofList

def resource? (target : String) : Option Resource :=
  match segments (pathOf target) with
  | ["", "api", "hosts"] => some .hosts
  | ["", "api", "config"] => some .config
  | ["", "api", "hosts", id] => if id = "" then none else some (.host id)
  | ["", "api", "hosts", first, last] =>
    if first = "code" ∧ last ≠ "" then some (.hostByCode last)
    else if last = "refresh" then some (.refreshed first)
    else none
  | _ => none

namespace Resource

def verbs : Resource → List Verb
  | .hosts => [.get, .post]
  | .host _ => [.get, .delete]
  | .hostByCode _ => [.get, .delete]
  | .refreshed _ => [.post]
  | .config => [.get, .post]

def allow : Resource → String
  | .hosts => "GET,HEAD,POST"
  | .host _ => "GET,HEAD,DELETE"
  | .hostByCode _ => "GET,HEAD,DELETE"
  | .refreshed _ => "POST"
  | .config => "GET,HEAD,POST"

end Resource

/-- The verb of a method; `HEAD` asks what `GET` asks. -/
def Verb.ofMethod? (method : String) : Option Verb :=
  match method with
  | "GET" => some .get
  | "HEAD" => some .get
  | "POST" => some .post
  | "DELETE" => some .delete
  | _ => none

end Rendezvous.Api
