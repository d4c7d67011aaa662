import Rendezvous.Toml.Lexeme

/-!
# TOML documents

A document is a table. `Node` is a table in the making: which parts of it headers and dotted keys
may still add to. `Document.parse?` reads a document, and refuses it when it is not well formed or
defines something twice.
-/

namespace Rendezvous.Toml

/-- Something under construction. -/
inductive Node
  /-- A value that nothing can be added to. -/
  | closed (value : Value)
  /-- A table: whether it was only implied by something in it, and whether by a dotted key. -/
  | table (implied dotted : Bool) (entries : List (String × Node))
  /-- Tables under repeated headers: the last, which is open, and those before it, latest first. -/
  | tables (last : List (String × Node)) (earlier : List (List (String × Node)))

abbrev Nodes := List (String × Node)

namespace Nodes

/-- Replaces the entry of a key, which keeps its place. -/
def replace (nodes : Nodes) (key : String) (node : Node) : Nodes :=
  nodes.map fun p => if p.1 == key then (key, node) else p

/-- Changes the table that a path leads to. Tables that are missing on the way are made; `dotted`
says that the path is part of a dotted key, which cannot enter a table that has a header. -/
def enter {β : Type} (dotted : Bool) (change : (isDotted : Bool) → Nodes → Option (Nodes × β)) :
    (path : List String) → (isDotted : Bool) → Nodes → Option (Nodes × β)
  | [], isDotted, nodes => change isDotted nodes
  | key :: rest, _, nodes =>
    match nodes.lookup key with
    | none => do
      let (inner, b) ← enter dotted change rest dotted []
      return (nodes ++ [(key, .table true dotted inner)], b)
    | some (.closed _) => none
    | some (.tables last earlier) => do
      let (inner, b) ← enter dotted change rest false last
      return (nodes.replace key (.tables inner earlier), b)
    | some (.table implied isDotted inner) =>
      if dotted && !implied then none
      else do
        let (inner, b) ← enter dotted change rest isDotted inner
        return (nodes.replace key (.table implied isDotted inner), b)

/-- Sets a key, which must not be set yet. A dotted key must end in a table made by dotted keys. -/
def define (nodes : Nodes) (path : List String) (key : String) (value : Value) : Option Nodes := do
  let (nodes, ()) ← enter true (fun isDotted inner =>
      if isDotted == path.isEmpty then none
      else if (inner.lookup key).isSome then none
      else some (inner ++ [(key, .closed value)], ())) path false nodes
  return nodes

/-- Puts a finished table under its header. -/
def place (nodes : Nodes) (path : List String) (key : String) (repeated : Bool) (table : Nodes) :
    Option Nodes := do
  let (nodes, ()) ← enter false (fun _ inner =>
      match inner.lookup key, repeated with
      | none, true => some (inner ++ [(key, .tables table [])], ())
      | none, false => some (inner ++ [(key, .table false false table)], ())
      | some (.tables last earlier), true =>
        some (replace inner key (.tables table (last :: earlier)), ())
      | _, _ => none) path false nodes
  return nodes

/-- Takes out the table of a header, if something in it came before the header. -/
def takeOut (nodes : Nodes) (path : List String) (key : String) : Option (Nodes × Nodes) :=
  enter false (fun _ inner =>
    match inner.lookup key with
    | none => some (inner, [])
    | some (.table true false table) => some (inner.filter (·.1 != key), table)
    | _ => none) path false nodes

/-- There may be one more table under a repeated header. -/
def canRepeat (nodes : Nodes) (path : List String) (key : String) : Bool :=
  (enter false (fun _ inner =>
    match inner.lookup key with
    | none | some (.tables _ _) => some (inner, ())
    | _ => none) path false nodes).isSome

mutual

def values : Nodes → List (String × Value)
  | [] => []
  | (key, node) :: rest => (key, valueOf node) :: values rest

def valueOf : Node → Value
  | .closed v => v
  | .table _ _ inner => .table (values inner)
  | .tables last earlier => .tables ((values last :: valuesOfAll earlier).reverse)

def valuesOfAll : List (List (String × Node)) → List (List (String × Value))
  | [] => []
  | inner :: rest => values inner :: valuesOfAll rest

end

end Nodes

/-! ## Values -/

/-- The items of an array behind its bracket. Here and below, a budget is at least as long as what
is left of the text. -/
def itemsFrom (value : List Char → Option (Value × List Char)) : (budget : List Char) →
    List Char → (seen : List Value) → Option (List Value × List Char)
  | [], _, _ => none
  | _ :: budget, s, seen =>
    match trivia s with
    | ']' :: rest => some (seen.reverse, rest)
    | s => do
      let (v, rest) ← value s
      match trivia rest with
      | ',' :: rest => itemsFrom value budget rest (v :: seen)
      | ']' :: rest => some ((v :: seen).reverse, rest)
      | _ => none

def entry? (limits : Limits) (value : List Char → Option (Value × List Char)) (s : List Char) :
    Option (List String × String × Value × List Char) := do
  let (parts, rest) ← key? limits s
  let rest ← char? '=' rest
  let (v, rest) ← value (skipSpace rest)
  let key ← parts.getLast?
  return (parts.dropLast, key, v, rest)

/-- The entries of an inline table behind its brace. -/
def entriesFrom (limits : Limits) (value : List Char → Option (Value × List Char)) :
    (budget : List Char) → List Char → (seen : Nodes) → Option (Nodes × List Char)
  | [], _, _ => none
  | _ :: budget, s, seen => do
    let (path, key, v, rest) ← entry? limits value s
    let seen ← seen.define path key v
    match skipSpace rest with
    | ',' :: rest => entriesFrom limits value budget rest seen
    | '\x7d' :: rest => some (seen, rest)
    | _ => none

/-- The value that is next, with at most `depth` brackets around its parts. -/
def value? (limits : Limits) : (depth : Nat) → List Char → Option (Value × List Char)
  | 0, s =>
    match s with
    | '[' :: _ | '\x7b' :: _ => none
    | _ => (string? s).map (fun p => (.string p.1, p.2)) <|> atom? limits s
  | depth + 1, s =>
    match s with
    | '[' :: rest => do
      let (items, rest) ← itemsFrom (value? limits depth) rest rest []
      return (.array items, rest)
    | '\x7b' :: rest =>
      match skipSpace rest with
      | '\x7d' :: rest => some (.table [], rest)
      | rest => do
        let (nodes, rest) ← entriesFrom limits (value? limits depth) rest rest []
        return (.table nodes.values, rest)
    | _ => (string? s).map (fun p => (.string p.1, p.2)) <|> atom? limits s

/-! ## Lines -/

/-- A document in the making: what is finished, and the table that lines are added to. -/
structure Draft where
  root : Nodes := []
  current : Nodes := []
  /-- The path and key of the current table's header; none at the start of the document. -/
  header : Option (List String × String) := none
  /-- The header is one that may be repeated. -/
  repeated : Bool := false

namespace Draft

/-- Puts the current table into the document. -/
def finish (d : Draft) : Option Nodes :=
  match d.header with
  | none => some d.current
  | some (path, key) => d.root.place path key d.repeated d.current

def openTable (d : Draft) (path : List String) (key : String) (repeated : Bool) : Option Draft := do
  let root ← d.finish
  if repeated then
    if root.canRepeat path key then
      return { root, current := [], header := some (path, key), repeated }
    else failure
  else
    let (root, current) ← root.takeOut path key
    return { root, current, header := some (path, key), repeated }

/-- A header in brackets, behind the first of them. -/
def headerLine (limits : Limits) (d : Draft) (s : List Char) : Option (Draft × List Char) := do
  let (repeated, rest) := match s with
    | '[' :: rest => (true, rest)
    | _ => (false, s)
  let (parts, rest) ← key? limits rest
  let rest ← char? ']' rest
  let rest ← if repeated then char? ']' rest else some rest
  let rest ← lineEnd? rest
  let d ← d.openTable parts.dropLast (← parts.getLast?) repeated
  return (d, rest)

def entryLine (limits : Limits) (d : Draft) (s : List Char) : Option (Draft × List Char) := do
  let (path, key, v, rest) ← entry? limits (value? limits limits.depth) s
  let rest ← lineEnd? rest
  return ({ d with current := ← d.current.define path key v }, rest)

def lines (limits : Limits) : (budget : List Char) → Draft → List Char → Option Draft
  | [], d, _ => some d
  | _ :: budget, d, s =>
    match skipSpace s with
    | [] => some d
    | '#' :: rest => do lines limits budget d (← lineEnd? ('#' :: rest))
    | '[' :: rest => do
      let (d, rest) ← d.headerLine limits rest
      lines limits budget d rest
    | s =>
      match newline? s with
      | some rest => lines limits budget d rest
      | none => do
        let (d, rest) ← d.entryLine limits s
        lines limits budget d rest

end Draft

/-- The entries of the document that a text is. A byte order mark at its start does not count. -/
def parse? (limits : Limits) (text : String) : Option (List (String × Value)) := do
  let s := match text.toList with
    | c :: rest => if c.toNat = 0xFEFF then rest else c :: rest
    | [] => []
  let d ← Draft.lines limits s {} s
  return (← d.finish).values

end Rendezvous.Toml
