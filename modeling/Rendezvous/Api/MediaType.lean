/-!
# Media types

Whether the value of a content type names JSON: the type `application` with the subtype `json` or
the suffix `+json`, in any case, and any well-formed parameters.
-/

namespace Rendezvous.MediaType

/-- A character of a name in a media type. -/
def isToken (c : Char) : Bool :=
  c.isAlphanum ||
    ['!', '#', '$', '%', '&', '\'', '+', '-', '.', '^', '_', '\x60', '|', '~'].contains c

/-- What a quoted parameter value may hold. -/
def isQuotable (c : Char) : Bool := 31 < c.toNat && c.toNat != 127

inductive Place
  /-- Before a parameter; spaces may stand here. -/
  | start
  | name
  /-- Behind `=`. -/
  | equals
  | value
  /-- Behind an opening quote; a quote here does not close the value yet. -/
  | quote
  | quoted
  /-- Behind a closing quote. -/
  | closed
  deriving DecidableEq, Repr

def Place.next? (p : Place) (c : Char) : Option Place :=
  match p with
  | .start => if c = ' ' then some .start else if isToken c then some .name else none
  | .name => if c = '=' then some .equals else if isToken c then some .name else none
  | .equals => if c = '"' then some .quote else if isToken c then some .value else none
  | .value => if c = ';' then some .start else if isToken c then some .value else none
  | .quote => if isQuotable c then some .quoted else none
  | .quoted => if c = '"' then some .closed else if isQuotable c then some .quoted else none
  | .closed => if c = ';' then some .start else if c = ' ' then some .closed else none

def Place.isEnd : Place → Bool
  | .start | .equals | .value | .closed => true
  | .name | .quote | .quoted => false

def paramsWellFormed (text : List Char) : Bool :=
  (text.foldl (fun place c => place.bind (·.next? c)) (some Place.start)).any Place.isEnd

/-- The part before the last plus sign that is not the first character, and the part behind it. -/
def splitSuffix (subtype : List Char) : List Char × Option (List Char) :=
  let behind := (subtype.reverse.takeWhile (· ≠ '+')).reverse
  let before := subtype.take (subtype.length - behind.length - 1)
  if behind.length < subtype.length ∧ ¬ before.isEmpty then (before, some behind)
  else (subtype, none)

def isJson (value : String) : Bool :=
  let text := value.toList.map Char.toLower
  let type := text.takeWhile isToken
  match text.drop type.length with
  | '/' :: rest =>
    let subtype := rest.takeWhile isToken
    let (before, suffix) := splitSuffix subtype
    let wellFormed := match rest.drop subtype.length with
      | [] => true
      | ';' :: params => ¬ subtype.isEmpty && paramsWellFormed params
      | _ => false
    wellFormed && String.ofList type == "application" &&
      (String.ofList before == "json" || suffix.any (String.ofList · == "json"))
  | _ => false

end Rendezvous.MediaType
