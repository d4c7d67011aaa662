import Rendezvous.Store.Command
import Rendezvous.Store.Fault

/-!
# Disturbances

A disturbance makes calls of a store slow, makes them fail, or answers them as if there were
nothing. A call meets the first disturbance that is about it and has uses left.
-/

namespace Rendezvous

inductive Operation
  | insert
  | findById
  | findByCode
  | deleteById
  | deleteByCode
  | list
  | touch
  | settings
  | merge
  deriving DecidableEq, Repr

namespace Operation

def name : Operation → String
  | .insert => "insert"
  | .findById => "get_by_id"
  | .findByCode => "get_by_code"
  | .deleteById => "delete_by_id"
  | .deleteByCode => "delete_by_code"
  | .list => "list_all"
  | .touch => "touch"
  | .settings => "get_settings"
  | .merge => "merge_settings"

def all : List Operation :=
  [.insert, .findById, .findByCode, .deleteById, .deleteByCode, .list, .touch, .settings, .merge]

def ofName? (name : String) : Option Operation := all.find? (·.name == name)

end Operation

namespace Command

def operation : Command → Operation
  | .insert _ => .insert
  | .findById _ => .findById
  | .findByCode _ => .findByCode
  | .deleteById _ => .deleteById
  | .deleteByCode _ => .deleteByCode
  | .list => .list
  | .touch _ _ => .touch
  | .settings => .settings
  | .merge _ => .merge

/-- What a command is about: an id, a code, or the address of a host to insert. -/
def subject : Command → String
  | .insert candidate => candidate.address
  | .findById id | .deleteById id | .touch id _ => id
  | .findByCode code | .deleteByCode code => code
  | .list | .settings | .merge _ => ""

/-- The answer of a store that has nothing and takes nothing; a merge has no such answer. -/
def emptyAnswer? : (command : Command) → Option command.Answer
  | .insert _ | .findById _ | .findByCode _ | .deleteById _ | .deleteByCode _ => some none
  | .list => some []
  | .touch _ _ => some none
  | .settings => some none
  | .merge _ => none

end Command

/-- What becomes of a call when its delay is over. -/
inductive Treatment
  | pass
  | fail (messages : List String)
  | empty
  deriving DecidableEq, Repr

structure Disturbance where
  operation : Operation
  /-- What a call must be about; `none` for any call. -/
  subject : Option String := none
  /-- How many calls can still meet it; `none` for no limit. -/
  uses : Option Nat := none
  /-- In milliseconds. -/
  delay : Nat := 0
  treatment : Treatment := .pass
  deriving DecidableEq, Repr

namespace Disturbance

def concerns (d : Disturbance) (command : Command) : Bool :=
  d.operation = command.operation && d.uses ≠ some 0 && d.subject.all (· = command.subject)

def used (d : Disturbance) : Disturbance := { d with uses := d.uses.map (· - 1) }

/-- The disturbance that a call meets, and all of them after it. -/
def meet (command : Command) : List Disturbance → Option Disturbance × List Disturbance
  | [] => (none, [])
  | d :: rest =>
    if d.concerns command then (some d, d.used :: rest)
    else
      let (met, rest) := meet command rest
      (met, d :: rest)

end Disturbance
end Rendezvous
