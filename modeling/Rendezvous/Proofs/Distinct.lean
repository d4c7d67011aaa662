import Rendezvous.Toml.Document

/-!
# Keys that are defined once

A document that was read has no table with a key twice, at any depth: `distinct_of_parse?`. Every
way to add to a table looks its key up first. The tables in the making have the same property, and
finishing them keeps it.
-/

namespace Rendezvous.Toml

/-- No table in the value has a key twice. -/
inductive Value.Distinct : Value → Prop
  | string {text : String} : Distinct (.string text)
  | integer {n : Int} : Distinct (.integer n)
  | real {x : Real} : Distinct (.real x)
  | boolean {b : Bool} : Distinct (.boolean b)
  | moment : Distinct .moment
  | array {items : List Value} (h : ∀ v ∈ items, Distinct v) : Distinct (.array items)
  | table {entries : List (String × Value)} (keys : (entries.map (·.1)).Nodup)
      (h : ∀ p ∈ entries, Distinct p.2) : Distinct (.table entries)
  | tables {items : List (List (String × Value))}
      (keys : ∀ entries ∈ items, (entries.map (·.1)).Nodup)
      (h : ∀ entries ∈ items, ∀ p ∈ entries, Distinct p.2) : Distinct (.tables items)

/-- No table in what is under construction has a key twice. -/
inductive Node.Distinct : Node → Prop
  | closed {v : Value} (h : v.Distinct) : Distinct (.closed v)
  | table {implied dotted : Bool} {nodes : Nodes} (keys : (nodes.map (·.1)).Nodup)
      (h : ∀ p ∈ nodes, Distinct p.2) : Distinct (.table implied dotted nodes)
  | tables {last : Nodes} {earlier : List Nodes}
      (keys : ∀ nodes ∈ last :: earlier, (nodes.map (·.1)).Nodup)
      (h : ∀ nodes ∈ last :: earlier, ∀ p ∈ nodes, Distinct p.2) : Distinct (.tables last earlier)

namespace Nodes

/-- The table has no key twice, nor has any in it. -/
structure Distinct (nodes : Nodes) : Prop where
  keys : (nodes.map (·.1)).Nodup
  parts : ∀ p ∈ nodes, p.2.Distinct

variable {nodes : Nodes} {key : String} {node : Node}

theorem Distinct.nil : Distinct [] := ⟨.nil, by simp⟩

theorem Distinct.asTable {implied dotted : Bool} (h : nodes.Distinct) :
    (Node.table implied dotted nodes).Distinct := .table h.keys h.parts

theorem Distinct.ofTable {implied dotted : Bool}
    (h : (Node.table implied dotted nodes).Distinct) : nodes.Distinct := by
  cases h with
  | table keys parts => exact ⟨keys, parts⟩

theorem Distinct.ofTables {last : Nodes} {earlier : List Nodes}
    (h : (Node.tables last earlier).Distinct) : ∀ nodes ∈ last :: earlier, nodes.Distinct := by
  cases h with
  | tables keys parts => exact fun nodes hm => ⟨keys nodes hm, parts nodes hm⟩

theorem Distinct.asTables {last : Nodes} {earlier : List Nodes}
    (h : ∀ nodes ∈ last :: earlier, nodes.Distinct) : (Node.tables last earlier).Distinct :=
  .tables (fun nodes hm => (h nodes hm).keys) fun nodes hm => (h nodes hm).parts

theorem Distinct.of_lookup (h : nodes.Distinct) (hl : nodes.lookup key = some node) :
    node.Distinct := by
  obtain ⟨_, _, rfl, _⟩ := List.lookup_eq_some_iff.mp hl
  exact h.parts (key, node) (by simp)

theorem notMem_of_lookup (hl : nodes.lookup key = none) : key ∉ nodes.map (·.1) := by
  rw [List.lookup_eq_none_iff] at hl
  rintro hm
  obtain ⟨p, hp, rfl⟩ := List.mem_map.mp hm
  simpa using hl p hp

theorem Distinct.append (h : nodes.Distinct) (hl : nodes.lookup key = none)
    (hn : node.Distinct) : (nodes ++ [(key, node)] : Nodes).Distinct where
  keys := by
    rw [List.map_append, List.nodup_append]
    refine ⟨h.keys, by simp, ?_⟩
    rintro a ha b hb rfl
    obtain rfl : a = key := by simpa using hb
    exact notMem_of_lookup hl ha
  parts p hp := by
    rcases List.mem_append.mp hp with hp | hp
    · exact h.parts p hp
    · obtain rfl : p = (key, node) := by simpa using hp
      exact hn

theorem Distinct.replace (h : nodes.Distinct) (hn : node.Distinct) :
    (nodes.replace key node).Distinct where
  keys := by
    have hkeys : (nodes.replace key node).map (·.1) = nodes.map (·.1) := by
      unfold Nodes.replace
      rw [List.map_map]
      refine List.map_congr_left fun p _ => ?_
      by_cases hp : p.1 = key
      · simp [hp]
      · simp [hp]
    rw [hkeys]
    exact h.keys
  parts q hq := by
    obtain ⟨p, hp, rfl⟩ := List.mem_map.mp hq
    split
    · exact hn
    · exact h.parts p hp

theorem Distinct.filter {keep : String × Node → Bool} (h : nodes.Distinct) :
    Distinct (nodes.filter keep) where
  keys := h.keys.sublist (List.filter_sublist.map _)
  parts p hp := h.parts p (List.mem_filter.mp hp).1

/-- A table that was changed inside and put back. -/
theorem changed_eq_some {β : Type} {change : Option (Nodes × β)} (back : Nodes → Nodes)
    {nodes : Nodes} {b : β} :
    (do let (inner, b) ← change; return (back inner, b)) = some (nodes, b) ↔
      ∃ inner, change = some (inner, b) ∧ back inner = nodes := by
  simp only [Option.bind_eq_bind, Option.bind_eq_some_iff, Option.pure_def, Option.some.injEq,
    Prod.exists, Prod.mk.injEq]
  constructor
  · rintro ⟨inner, _, h, rfl, rfl⟩
    exact ⟨inner, h, rfl⟩
  · rintro ⟨inner, h, rfl⟩
    exact ⟨inner, b, h, rfl, rfl⟩

/-- What a change at the end of a path keeps, the whole keeps. -/
theorem Distinct.enter {β : Type} {P : β → Prop} {dotted : Bool}
    {change : Bool → Nodes → Option (Nodes × β)}
    (hchange : ∀ isDotted nodes nodes' b, nodes.Distinct →
      change isDotted nodes = some (nodes', b) → nodes'.Distinct ∧ P b) :
    ∀ (path : List String) (isDotted : Bool) (nodes nodes' : Nodes) (b : β), nodes.Distinct →
      Nodes.enter dotted change path isDotted nodes = some (nodes', b) → nodes'.Distinct ∧ P b := by
  intro path
  induction path with
  | nil => exact hchange
  | cons key rest ih =>
    intro isDotted nodes nodes' b hd h
    unfold Nodes.enter at h
    split at h
    · rename_i hl
      obtain ⟨inner, hinner, rfl⟩ :=
        (changed_eq_some fun inner => nodes ++ [(key, .table true dotted inner)]).mp h
      obtain ⟨hd', hb⟩ := ih _ _ _ _ .nil hinner
      exact ⟨hd.append hl hd'.asTable, hb⟩
    · cases h
    · rename_i last earlier hl
      obtain ⟨inner, hinner, rfl⟩ :=
        (changed_eq_some fun inner => nodes.replace key (.tables inner earlier)).mp h
      have hlast := ofTables (hd.of_lookup hl)
      obtain ⟨hd', hb⟩ := ih _ _ _ _ (hlast _ (.head _)) hinner
      refine ⟨hd.replace (asTables ?_), hb⟩
      intro nodes hm
      cases hm with
      | head => exact hd'
      | tail _ hm => exact hlast _ (.tail _ hm)
    · rename_i implied isDotted table hl
      split at h
      · cases h
      · obtain ⟨inner, hinner, rfl⟩ :=
          (changed_eq_some fun inner => nodes.replace key (.table implied isDotted inner)).mp h
        obtain ⟨hd', hb⟩ := ih _ _ _ _ (ofTable (hd.of_lookup hl)) hinner
        exact ⟨hd.replace hd'.asTable, hb⟩

/-! ## Ways to add to a table -/

theorem Distinct.define {path : List String} {v : Value} {nodes' : Nodes} (hd : nodes.Distinct)
    (hv : v.Distinct) (h : nodes.define path key v = some nodes') : nodes'.Distinct := by
  unfold Nodes.define at h
  simp only [Option.bind_eq_bind, Option.bind_eq_some_iff, Option.pure_def, Option.some.injEq,
    Prod.exists] at h
  obtain ⟨_, _, henter, rfl⟩ := h
  refine (enter (P := fun _ => True) ?_ _ _ _ _ _ hd henter).1
  intro isDotted inner inner' _ hinner hchange
  split at hchange
  · cases hchange
  · split at hchange
    · cases hchange
    · rename_i hl
      cases hchange
      exact ⟨hinner.append (Option.not_isSome_iff_eq_none.mp hl) (.closed hv), trivial⟩

theorem Distinct.place {path : List String} {repeated : Bool} {table nodes' : Nodes}
    (hd : nodes.Distinct) (ht : table.Distinct)
    (h : nodes.place path key repeated table = some nodes') : nodes'.Distinct := by
  unfold Nodes.place at h
  simp only [Option.bind_eq_bind, Option.bind_eq_some_iff, Option.pure_def, Option.some.injEq,
    Prod.exists] at h
  obtain ⟨_, _, henter, rfl⟩ := h
  refine (enter (P := fun _ => True) ?_ _ _ _ _ _ hd henter).1
  intro _ inner inner' _ hinner hchange
  split at hchange
  · rename_i hl
    cases hchange
    refine ⟨hinner.append hl (asTables ?_), trivial⟩
    intro nodes hm
    obtain rfl := List.mem_singleton.mp hm
    exact ht
  · rename_i hl
    cases hchange
    exact ⟨hinner.append hl ht.asTable, trivial⟩
  · rename_i last earlier hl
    cases hchange
    refine ⟨hinner.replace (asTables ?_), trivial⟩
    intro nodes hm
    cases hm with
    | head => exact ht
    | tail _ hm => exact ofTables (hinner.of_lookup hl) _ hm
  · cases hchange

/-- Both what stays and what is taken out. -/
theorem Distinct.takeOut {path : List String} {nodes' table : Nodes} (hd : nodes.Distinct)
    (h : nodes.takeOut path key = some (nodes', table)) : nodes'.Distinct ∧ table.Distinct := by
  refine enter (P := Nodes.Distinct) ?_ _ _ _ _ _ hd h
  intro _ inner inner' _ hinner hchange
  split at hchange
  · cases hchange
    exact ⟨hinner, .nil⟩
  · rename_i hl
    cases hchange
    exact ⟨hinner.filter, ofTable (hinner.of_lookup hl)⟩
  · cases hchange

/-! ## Finished tables -/

theorem values_eq (nodes : Nodes) : nodes.values = nodes.map fun p => (p.1, valueOf p.2) := by
  induction nodes with
  | nil => rw [values, List.map_nil]
  | cons p rest ih => rw [values, List.map_cons, ih]

theorem valuesOfAll_eq (all : List Nodes) : valuesOfAll all = all.map values := by
  induction all with
  | nil => rw [valuesOfAll, List.map_nil]
  | cons nodes rest ih => rw [valuesOfAll, List.map_cons, ih]

theorem keys_values (nodes : Nodes) : nodes.values.map (·.1) = nodes.map (·.1) := by
  rw [values_eq, List.map_map]
  rfl

theorem mem_values {p : String × Value} :
    p ∈ nodes.values ↔ ∃ q ∈ nodes, (q.1, valueOf q.2) = p := by
  rw [values_eq, List.mem_map]

theorem distinct_valueOf (h : node.Distinct) : (valueOf node).Distinct := by
  induction h with
  | closed hv =>
    rw [valueOf]
    exact hv
  | table keys _ ih =>
    rw [valueOf]
    refine .table ((keys_values _).symm ▸ keys) ?_
    intro p hp
    obtain ⟨q, hq, rfl⟩ := mem_values.mp hp
    exact ih q hq
  | tables keys _ ih =>
    rw [valueOf, valuesOfAll_eq, ← List.map_cons]
    refine .tables ?_ ?_
    · intro entries hm
      obtain ⟨nodes, hn, rfl⟩ := List.mem_map.mp (List.mem_reverse.mp hm)
      exact (keys_values _).symm ▸ keys nodes hn
    · intro entries hm p hp
      obtain ⟨nodes, hn, rfl⟩ := List.mem_map.mp (List.mem_reverse.mp hm)
      obtain ⟨q, hq, rfl⟩ := mem_values.mp hp
      exact ih nodes hn q hq

theorem Distinct.values (h : nodes.Distinct) : (Value.table nodes.values).Distinct := by
  have hnode : (Node.table false false nodes).Distinct := h.asTable
  have hvalue := distinct_valueOf hnode
  rwa [valueOf] at hvalue

end Nodes

/-! ## Values that were read -/

/-- No table in the value, if one was read, has a key twice. -/
def Read (result : Option (Value × List Char)) : Prop :=
  ∀ v rest, result = some (v, rest) → v.Distinct

namespace Read

variable {v : Value} {rest : List Char} {a b : Option (Value × List Char)}

theorem some (h : v.Distinct) : Read (some (v, rest)) := by
  intro _ _ he
  cases he
  exact h

theorem none : Read none := by
  intro _ _ he
  cases he

theorem bind {α : Type} {x : Option α} {f : α → Option (Value × List Char)}
    (h : ∀ a, Read (f a)) : Read (x >>= f) := by
  intro v rest he
  obtain ⟨a, _, ha⟩ := Option.bind_eq_some_iff.mp he
  exact h a v rest ha

theorem ite {p : Prop} [Decidable p] (ha : Read a) (hb : Read b) : Read (if p then a else b) := by
  split
  · exact ha
  · exact hb

theorem orElse (ha : Read a) (hb : Read b) : Read (a <|> b) := by
  cases a with
  | none => exact hb
  | some p => exact ha

theorem moment (s : List Char) : Read (moment? s) := by
  unfold moment?
  split
  · exact bind fun _ => some .moment
  · split
    · refine ite ?_ (some .moment)
      split
      · exact bind fun _ => some .moment
      · exact some .moment
    · exact some .moment

theorem radix (base : Nat) (s : List Char) : Read (radix? base s) :=
  bind fun _ => some .integer

theorem integer (s : List Char) : Read (integer? s) := by
  unfold integer?
  split
  · exact radix 16 _
  · exact radix 8 _
  · exact radix 2 _
  · exact bind fun _ => some .integer

theorem decimal (s : List Char) : Read (decimal? s) :=
  bind fun _ => ite none (some .real)

theorem special (s : List Char) : Read (special? s) := by
  unfold special?
  dsimp only
  split
  · exact some .real
  · exact some .real
  · exact none

theorem number (limits : Limits) (s : List Char) : Read (number? limits s) := by
  intro v rest h
  exact (decimal s).orElse (integer s) v rest (Option.filter_eq_some_iff.mp h).1

theorem atom (limits : Limits) (s : List Char) : Read (atom? limits s) := by
  unfold atom?
  split
  · exact some .boolean
  · exact some .boolean
  · exact (moment s).orElse ((special s).orElse (number limits s))

theorem text (limits : Limits) (s : List Char) :
    Read ((string? s).map (fun p => (.string p.1, p.2)) <|> atom? limits s) := by
  refine orElse ?_ (atom limits s)
  cases string? s with
  | none => exact none
  | some p => exact some .string

variable {limits : Limits} {read : List Char → Option (Value × List Char)}

theorem items (hread : ∀ s, Read (read s)) (budget : List Char) :
    ∀ (s : List Char) (seen : List Value), (∀ v ∈ seen, v.Distinct) →
      ∀ items rest, itemsFrom read budget s seen = .some (items, rest) →
        ∀ v ∈ items, v.Distinct := by
  induction budget with
  | nil =>
    intro s seen _ items rest h
    cases h
  | cons _ budget ih =>
    intro s seen hseen items rest h
    unfold itemsFrom at h
    split at h
    · cases h
      exact fun v hv => hseen v (List.mem_reverse.mp hv)
    · obtain ⟨⟨v, behind⟩, hv, h⟩ := Option.bind_eq_some_iff.mp h
      have hnext : ∀ x ∈ v :: seen, x.Distinct := by
        intro x hx
        cases hx with
        | head => exact hread _ _ _ hv
        | tail _ hx => exact hseen x hx
      dsimp only at h
      split at h
      · exact ih _ _ hnext _ _ h
      · cases h
        exact fun x hx => hnext x (List.mem_reverse.mp hx)
      · cases h

theorem entry (hread : ∀ s, Read (read s)) {s rest : List Char} {path : List String}
    {key : String} {v : Value} (h : entry? limits read s = .some (path, key, v, rest)) :
    v.Distinct := by
  unfold entry? at h
  obtain ⟨⟨parts, s₁⟩, _, h⟩ := Option.bind_eq_some_iff.mp h
  obtain ⟨s₂, _, h⟩ := Option.bind_eq_some_iff.mp h
  obtain ⟨⟨found, s₃⟩, hv, h⟩ := Option.bind_eq_some_iff.mp h
  obtain ⟨last, _, h⟩ := Option.bind_eq_some_iff.mp h
  cases h
  exact hread _ _ _ hv

theorem entries (hread : ∀ s, Read (read s)) (budget : List Char) :
    ∀ (s : List Char) (seen : Nodes), seen.Distinct →
      ∀ nodes rest, entriesFrom limits read budget s seen = .some (nodes, rest) →
        nodes.Distinct := by
  induction budget with
  | nil =>
    intro s seen _ nodes rest h
    cases h
  | cons _ budget ih =>
    intro s seen hseen nodes rest h
    unfold entriesFrom at h
    obtain ⟨⟨path, key, v, behind⟩, hentry, h⟩ := Option.bind_eq_some_iff.mp h
    obtain ⟨seen', hdefine, h⟩ := Option.bind_eq_some_iff.mp h
    have hnext := hseen.define (entry hread hentry) hdefine
    split at h
    · exact ih _ _ hnext _ _ h
    · cases h
      exact hnext
    · cases h

theorem value (depth : Nat) : ∀ s, Read (value? limits depth s) := by
  induction depth with
  | zero =>
    intro s
    unfold value?
    split
    · exact none
    · exact none
    · exact text limits s
  | succ depth ih =>
    intro s
    unfold value?
    split
    · intro v rest h
      obtain ⟨⟨list, behind⟩, hitems, h⟩ := Option.bind_eq_some_iff.mp h
      cases h
      exact .array (items ih _ _ _ (by simp) _ _ hitems)
    · split
      · exact some (.table .nil (by simp))
      · intro v rest h
        obtain ⟨⟨nodes, behind⟩, hentries, h⟩ := Option.bind_eq_some_iff.mp h
        cases h
        exact (entries ih _ _ _ .nil _ _ hentries).values
    · exact text limits s

end Read

/-! ## Documents -/

namespace Draft

structure Distinct (d : Draft) : Prop where
  root : d.root.Distinct
  current : d.current.Distinct

variable {limits : Limits} {d d' : Draft}

theorem Distinct.finish {nodes : Nodes} (hd : d.Distinct) (h : d.finish = some nodes) :
    nodes.Distinct := by
  unfold Draft.finish at h
  split at h
  · cases h
    exact hd.current
  · exact hd.root.place hd.current h

theorem Distinct.openTable {path : List String} {key : String} {repeated : Bool}
    (hd : d.Distinct) (h : d.openTable path key repeated = some d') : d'.Distinct := by
  unfold Draft.openTable at h
  obtain ⟨root, hroot, h⟩ := Option.bind_eq_some_iff.mp h
  have hfinish := hd.finish hroot
  split at h
  · split at h
    · cases h
      exact ⟨hfinish, .nil⟩
    · cases h
  · obtain ⟨⟨root', current⟩, htake, h⟩ := Option.bind_eq_some_iff.mp h
    cases h
    obtain ⟨hleft, htaken⟩ := hfinish.takeOut htake
    exact ⟨hleft, htaken⟩

theorem Distinct.headerLine {s rest : List Char} (hd : d.Distinct)
    (h : d.headerLine limits s = some (d', rest)) : d'.Distinct := by
  -- What is done behind the brackets, of which there are one or two.
  have hbehind : ∀ (parts : List String) (repeated : Bool) (s₃ : List Char),
      (do
        let rest ← lineEnd? s₃
        let d ← d.openTable parts.dropLast (← parts.getLast?) repeated
        return (d, rest)) = some (d', rest) → d'.Distinct := by
    intro parts repeated s₃ h
    obtain ⟨s₄, _, h⟩ := Option.bind_eq_some_iff.mp h
    obtain ⟨last, _, h⟩ := Option.bind_eq_some_iff.mp h
    obtain ⟨opened, hopen, h⟩ := Option.bind_eq_some_iff.mp h
    cases h
    exact hd.openTable hopen
  unfold Draft.headerLine at h
  dsimp only at h
  obtain ⟨⟨parts, s₁⟩, _, h⟩ := Option.bind_eq_some_iff.mp h
  obtain ⟨s₂, _, h⟩ := Option.bind_eq_some_iff.mp h
  dsimp only at h
  split at h
  · obtain ⟨s₃, _, h⟩ := Option.bind_eq_some_iff.mp h
    exact hbehind _ _ s₃ h
  · exact hbehind _ _ s₂ h

theorem Distinct.entryLine {s rest : List Char} (hd : d.Distinct)
    (h : d.entryLine limits s = some (d', rest)) : d'.Distinct := by
  unfold Draft.entryLine at h
  obtain ⟨⟨path, key, v, s₁⟩, hentry, h⟩ := Option.bind_eq_some_iff.mp h
  obtain ⟨s₂, _, h⟩ := Option.bind_eq_some_iff.mp h
  obtain ⟨current, hdefine, h⟩ := Option.bind_eq_some_iff.mp h
  cases h
  exact ⟨hd.root, hd.current.define (Read.entry (Read.value _) hentry) hdefine⟩

theorem Distinct.lines (budget : List Char) :
    ∀ (d d' : Draft) (s : List Char), d.Distinct → Draft.lines limits budget d s = some d' →
      d'.Distinct := by
  induction budget with
  | nil =>
    intro d d' s hd h
    cases h
    exact hd
  | cons _ budget ih =>
    intro d d' s hd h
    unfold Draft.lines at h
    split at h
    · cases h
      exact hd
    · obtain ⟨rest, _, h⟩ := Option.bind_eq_some_iff.mp h
      exact ih _ _ _ hd h
    · obtain ⟨⟨opened, rest⟩, hline, h⟩ := Option.bind_eq_some_iff.mp h
      exact ih _ _ _ (hd.headerLine hline) h
    · split at h
      · exact ih _ _ _ hd h
      · obtain ⟨⟨next, rest⟩, hline, h⟩ := Option.bind_eq_some_iff.mp h
        exact ih _ _ _ (hd.entryLine hline) h

end Draft

/-- No table of a document that was read has a key twice. -/
theorem distinct_of_parse? {limits : Limits} {text : String} {entries : List (String × Value)}
    (h : parse? limits text = some entries) : (Value.table entries).Distinct := by
  unfold parse? at h
  obtain ⟨d, hlines, h⟩ := Option.bind_eq_some_iff.mp h
  obtain ⟨nodes, hfinish, h⟩ := Option.bind_eq_some_iff.mp h
  cases h
  have hd : d.Distinct := Draft.Distinct.lines _ _ _ _ ⟨.nil, .nil⟩ hlines
  exact (hd.finish hfinish).values

end Rendezvous.Toml
