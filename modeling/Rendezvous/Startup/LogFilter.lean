import Rendezvous.Service.Event

/-!
# Log filters

A filter is a list of directives: a level for everything, or `part=level` for a part of the
program. The most specific directive that fits decides. A text that is no list of directives means
the same as none.
-/

namespace Rendezvous

/-- The least weight of what is written; `none` writes nothing. -/
abbrev Threshold := Option Nat

structure Directive where
  /-- The part of the program; the empty name is that of the whole. -/
  part : String
  threshold : Threshold
  deriving DecidableEq, Repr

namespace LogFilter

def threshold? (name : String) : Option Threshold :=
  match name.map Char.toLower with
  | "off" => some none
  | "error" => some (some Level.error.weight)
  | "warn" => some (some Level.warn.weight)
  | "info" => some (some Level.info.weight)
  | "debug" | "trace" => some (some Level.debug.weight)
  | _ => none

def isPartChar (c : Char) : Bool := c.isAlphanum || c == '_' || c == ':' || c == '-'

def isPart (name : String) : Bool := !name.isEmpty && name.toList.all isPartChar

def directive? (text : String) : Option Directive :=
  match text.splitOn "=" with
  | [name] =>
    match threshold? name with
    | some threshold => some ⟨"", threshold⟩
    | none => if isPart name then some ⟨name, some Level.debug.weight⟩ else none
  | [name, level] =>
    if isPart name then (threshold? level).map fun threshold => ⟨name, threshold⟩ else none
  | _ => none

/-- What is written when nothing is asked for. -/
def standard : List Directive := [⟨"hostdird", some Level.info.weight⟩]

def ofText (text : Option String) : List Directive :=
  ((text.bind fun t => (t.splitOn ",").mapM directive?).getD standard)

def Directive.covers (d : Directive) (part : String) : Bool := d.part.toList.isPrefixOf part.toList

/-- The more specific of two directives. -/
def better (best : Option Directive) (d : Directive) : Option Directive :=
  match best with
  | some b => if b.part.length ≤ d.part.length then some d else some b
  | none => some d

/-- What a part writes at a level passes the filter. -/
def allows (filter : List Directive) (part : String) (level : Level) : Bool :=
  match (filter.filter (Directive.covers · part)).foldl better none with
  | some d => d.threshold.any (· ≤ level.weight)
  | none => false

end LogFilter
end Rendezvous
