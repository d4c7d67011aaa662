import Rendezvous.Number.Double

/-!
# JSON documents

A number keeps whether it was whole or had a fraction. The fields of an object are sorted by
name, each name once; `Fields.insert` keeps them so, and `Fields.union` lets the fields of a
second object win over those of the first.
-/

namespace Rendezvous

inductive Json
  | null
  | bool (value : Bool)
  | int (value : Int)
  | real (value : Double)
  | string (value : String)
  | array (items : List Json)
  | object (fields : List (String × Json))
  deriving Inhabited, BEq

/-- The fields of an object. -/
abbrev Fields := List (String × Json)

namespace Fields

def get? (fields : Fields) (name : String) : Option Json := fields.lookup name

/-- Sets a field, in the place that its name has in the order of names. -/
def insert (fields : Fields) (name : String) (value : Json) : Fields :=
  match fields with
  | [] => [(name, value)]
  | (other, old) :: rest =>
    if name = other then (name, value) :: rest
    else if name < other then (name, value) :: (other, old) :: rest
    else (other, old) :: insert rest name value

/-- The fields in the order of their names; of several with one name the last wins. -/
def ofList (pairs : List (String × Json)) : Fields :=
  pairs.foldl (fun fields p => fields.insert p.1 p.2) []

/-- All fields of both, those of the second winning. -/
def union (fields more : Fields) : Fields :=
  more.foldl (fun fields p => fields.insert p.1 p.2) fields

end Fields

namespace Json

/-- A text, or null when there is none. -/
def ofOption : Option Json → Json := (·.getD .null)

def fields? : Json → Option Fields
  | .object fields => some fields
  | _ => none

/-- Lays the fields of `patch` over the document; a document that is no object is replaced. -/
def overlay (current : Option Json) (patch : Fields) : Json :=
  .object (((current.bind fields?).getD []).union patch)

end Json
end Rendezvous
