import Rendezvous.Toml.Document

/-!
# The limits of a reader

What a text says does not depend on the limits under which it is read: what is read under some is
read the same under wider ones (`parse?_mono`). So a text is a document, `Valid`, if some depth lets
it through when numbers may be of any size, and it is one document only.
-/

namespace Rendezvous.Toml

/-- The second limits let through all that the first do. -/
structure Limits.Within (inner outer : Limits) : Prop where
  depth : inner.depth ≤ outer.depth
  narrow : outer.narrow = true → inner.narrow = true

/-- Whatever the first reader reads, the second reads too. -/
def Extends {α : Type} (inner outer : List Char → Option α) : Prop :=
  ∀ s a, inner s = some a → outer s = some a

variable {inner outer : Limits} {s : List Char}

/-! ## Keys -/

theorem keyFrom_mono (depth more : Nat) {found : List String × List Char}
    (h : keyFrom depth s = some found) : keyFrom (depth + more) s = some found := by
  induction depth generalizing s found with
  | zero => cases h
  | succ depth ih =>
    rw [Nat.succ_add]
    obtain ⟨⟨part, rest⟩, hpart, h⟩ := Option.bind_eq_some_iff.mp h
    refine Option.bind_eq_some_iff.mpr ⟨_, hpart, ?_⟩
    dsimp only at h ⊢
    split at h
    · obtain ⟨found, hmore, h⟩ := Option.bind_eq_some_iff.mp h
      exact Option.bind_eq_some_iff.mpr ⟨found, ih hmore, h⟩
    · exact h

theorem key?_mono (hl : inner.Within outer) : Extends (key? inner) (key? outer) := by
  intro s found h
  have hmore := keyFrom_mono _ (outer.depth - inner.depth) h
  rwa [Nat.add_sub_cancel' hl.depth] at hmore

/-! ## Values -/

theorem orElse_mono {α : Type} {a b c : Option α} {x : α} (hbc : b = some x → c = some x)
    (h : (a <|> b) = some x) : (a <|> c) = some x := by
  cases a with
  | none => exact hbc h
  | some y => exact h

theorem number?_mono (hl : inner.Within outer) : Extends (number? inner) (number? outer) := by
  intro s found h
  obtain ⟨hread, hsize⟩ := Option.filter_eq_some_iff.mp h
  refine Option.filter_eq_some_iff.mpr ⟨hread, ?_⟩
  cases hout : outer.narrow with
  | false => rfl
  | true => rwa [hl.narrow hout] at hsize

theorem atom?_mono (hl : inner.Within outer) : Extends (atom? inner) (atom? outer) := by
  intro s found h
  unfold atom? at h ⊢
  split at h
  · exact h
  · exact h
  · exact orElse_mono (orElse_mono (number?_mono hl s found)) h

theorem itemsFrom_mono {read more : List Char → Option (Value × List Char)}
    (hread : Extends read more) (budget : List Char) (seen : List Value)
    {found : List Value × List Char} (h : itemsFrom read budget s seen = some found) :
    itemsFrom more budget s seen = some found := by
  induction budget generalizing s seen found with
  | nil => cases h
  | cons _ budget ih =>
    unfold itemsFrom at h ⊢
    split at h
    · exact h
    · obtain ⟨⟨v, rest⟩, hv, h⟩ := Option.bind_eq_some_iff.mp h
      refine Option.bind_eq_some_iff.mpr ⟨_, hread _ _ hv, ?_⟩
      dsimp only at h ⊢
      split at h
      · exact ih _ h
      · exact h
      · cases h

theorem entry?_mono (hl : inner.Within outer) {read more : List Char → Option (Value × List Char)}
    (hread : Extends read more) : Extends ( entry? inner read) ( entry? outer more) := by
  intro s found h
  obtain ⟨⟨parts, s₁⟩, hkey, h⟩ := Option.bind_eq_some_iff.mp h
  obtain ⟨s₂, hsign, h⟩ := Option.bind_eq_some_iff.mp h
  obtain ⟨⟨v, s₃⟩, hv, h⟩ := Option.bind_eq_some_iff.mp h
  refine Option.bind_eq_some_iff.mpr ⟨_, key?_mono hl _ _ hkey, ?_⟩
  refine Option.bind_eq_some_iff.mpr ⟨_, hsign, ?_⟩
  exact Option.bind_eq_some_iff.mpr ⟨_, hread _ _ hv, h⟩

theorem entriesFrom_mono (hl : inner.Within outer)
    {read more : List Char → Option (Value × List Char)} (hread : Extends read more)
    (budget : List Char) (seen : Nodes) {found : Nodes × List Char}
    (h : entriesFrom inner read budget s seen = some found) :
    entriesFrom outer more budget s seen = some found := by
  induction budget generalizing s seen found with
  | nil => cases h
  | cons _ budget ih =>
    obtain ⟨⟨path, key, v, rest⟩, hentry, h⟩ := Option.bind_eq_some_iff.mp h
    obtain ⟨next, hdefine, h⟩ := Option.bind_eq_some_iff.mp h
    refine Option.bind_eq_some_iff.mpr ⟨_, entry?_mono hl hread _ _ hentry, ?_⟩
    refine Option.bind_eq_some_iff.mpr ⟨_, hdefine, ?_⟩
    split at h
    · exact ih _ h
    · exact h
    · cases h

theorem value?_mono (hl : inner.Within outer) (depth more : Nat) :
    Extends (value? inner depth) (value? outer (depth + more)) := by
  induction depth with
  | zero =>
    intro s found h
    unfold value? at h
    split at h
    · cases h
    · cases h
    · rename_i hsquare hbrace
      have hatom := orElse_mono (atom?_mono hl s found) h
      cases more with
      | zero => simpa only [value?] using hatom
      | succ more => simpa only [Nat.zero_add, value?] using hatom
  | succ depth ih =>
    intro s found h
    rw [Nat.succ_add]
    unfold value? at h ⊢
    split at h
    · obtain ⟨items, hitems, h⟩ := Option.bind_eq_some_iff.mp h
      exact Option.bind_eq_some_iff.mpr ⟨items, itemsFrom_mono ih _ _ hitems, h⟩
    · dsimp only at h ⊢
      split at h
      · exact h
      · obtain ⟨nodes, hnodes, h⟩ := Option.bind_eq_some_iff.mp h
        exact Option.bind_eq_some_iff.mpr ⟨nodes, entriesFrom_mono hl ih _ _ hnodes, h⟩
    · exact orElse_mono (atom?_mono hl s found) h

/-! ## Documents -/

namespace Draft

theorem headerLine_mono (hl : inner.Within outer) (d : Draft) :
    Extends (headerLine inner d) (headerLine outer d) := by
  intro s found h
  obtain ⟨⟨parts, rest⟩, hkey, h⟩ := Option.bind_eq_some_iff.mp h
  exact Option.bind_eq_some_iff.mpr ⟨_, key?_mono hl _ _ hkey, h⟩

theorem entryLine_mono (hl : inner.Within outer) (d : Draft) :
    Extends (entryLine inner d) (entryLine outer d) := by
  intro s found h
  have hvalue : Extends (value? inner inner.depth) (value? outer outer.depth) := by
    have hmore := value?_mono hl inner.depth (outer.depth - inner.depth)
    rwa [Nat.add_sub_cancel' hl.depth] at hmore
  obtain ⟨entry, hentry, h⟩ := Option.bind_eq_some_iff.mp h
  exact Option.bind_eq_some_iff.mpr ⟨entry, entry?_mono hl hvalue _ _ hentry, h⟩

theorem lines_mono (hl : inner.Within outer) (budget : List Char) (d : Draft) {d' : Draft}
    (h : lines inner budget d s = some d') : lines outer budget d s = some d' := by
  induction budget generalizing d s with
  | nil => exact h
  | cons _ budget ih =>
    unfold lines at h ⊢
    split at h
    · exact h
    · obtain ⟨rest, hend, h⟩ := Option.bind_eq_some_iff.mp h
      exact Option.bind_eq_some_iff.mpr ⟨rest, hend, ih _ h⟩
    · obtain ⟨⟨opened, rest⟩, hline, h⟩ := Option.bind_eq_some_iff.mp h
      exact Option.bind_eq_some_iff.mpr ⟨_, headerLine_mono hl d _ _ hline, ih _ h⟩
    · split at h
      · exact ih _ h
      · obtain ⟨⟨next, rest⟩, hline, h⟩ := Option.bind_eq_some_iff.mp h
        exact Option.bind_eq_some_iff.mpr ⟨_, entryLine_mono hl d _ _ hline, ih _ h⟩

end Draft

variable {text : String} {entries entries' : List (String × Value)}

theorem parse?_mono (hl : inner.Within outer) (h : parse? inner text = some entries) :
    parse? outer text = some entries := by
  obtain ⟨d, hlines, h⟩ := Option.bind_eq_some_iff.mp h
  exact Option.bind_eq_some_iff.mpr ⟨d, Draft.lines_mono hl _ _ hlines, h⟩

/-- The text is the document: so it is read if nothing is too deep and no number too large. -/
def Valid (text : String) (entries : List (String × Value)) : Prop :=
  ∃ depth, parse? ⟨depth, false⟩ text = some entries

theorem valid_of_parse? {limits : Limits} (h : parse? limits text = some entries) :
    Valid text entries := by
  have hl : limits.Within ⟨limits.depth, false⟩ := ⟨Nat.le_refl _, nofun⟩
  exact ⟨limits.depth, parse?_mono hl h⟩

theorem Valid.unique (h : Valid text entries) (h' : Valid text entries') : entries = entries' := by
  obtain ⟨depth, h⟩ := h
  obtain ⟨depth', h'⟩ := h'
  have hle : (⟨depth, false⟩ : Limits).Within ⟨max depth depth', false⟩ := ⟨Nat.le_max_left _ _, id⟩
  have hle' : (⟨depth', false⟩ : Limits).Within ⟨max depth depth', false⟩ :=
    ⟨Nat.le_max_right _ _, id⟩
  exact Option.some.inj ((parse?_mono hle h).symm.trans (parse?_mono hle' h'))

/-! ## Arrays in each other -/

def nested : Nat → Value
  | 0 => .array []
  | depth + 1 => .array [nested depth]

def brackets : Nat → List Char → List Char
  | 0, tail => '[' :: ']' :: tail
  | depth + 1, tail => '[' :: brackets depth (']' :: tail)

theorem brackets_eq_cons (depth : Nat) (tail : List Char) :
    ∃ rest, brackets depth tail = '[' :: rest := by
  cases depth <;> exact ⟨_, rfl⟩

theorem trivia_cons {c : Char} (hspace : isSpace c = false) (hcomment : c ≠ '#')
    (hnewline : newline? (c :: s) = none) : trivia (c :: s) = c :: s := by
  have hskip : skipSpace (c :: s) = c :: s := by
    rw [skipSpace, List.dropWhile_cons, hspace]
    rfl
  rw [trivia, skipTrivia]
  simp only [hskip]
  split
  · rename_i heq
    cases heq
    exact absurd rfl hcomment
  · rw [hnewline]

theorem trivia_bracket (s : List Char) :
    trivia ('[' :: s) = '[' :: s ∧ trivia (']' :: s) = ']' :: s :=
  ⟨trivia_cons rfl (by decide) rfl, trivia_cons rfl (by decide) rfl⟩

/-- An array whose first item begins with a bracket. -/
theorem itemsFrom_bracket (read : List Char → Option (Value × List Char))
    (budget rest : List Char) :
    itemsFrom read ('[' :: budget) ('[' :: rest) [] = (do
      let (v, rest) ← read ('[' :: rest)
      match trivia rest with
      | ',' :: rest => itemsFrom read budget rest [v]
      | ']' :: rest => some ([v], rest)
      | _ => none) := by
  rw [itemsFrom, (trivia_bracket rest).1]
  rfl

theorem value?_brackets (limits : Limits) (depth count : Nat) (tail : List Char) :
    value? limits depth (brackets count tail)
      = if count < depth then some (nested count, tail) else none := by
  induction count generalizing depth tail with
  | zero =>
    cases depth with
    | zero => rfl
    | succ depth =>
      simp only [brackets, value?, itemsFrom, (trivia_bracket tail).2]
      rfl
  | succ count ih =>
    cases depth with
    | zero => rfl
    | succ depth =>
      obtain ⟨rest, hrest⟩ := brackets_eq_cons count (']' :: tail)
      have hitem := ih depth (']' :: tail)
      rw [hrest] at hitem
      simp only [brackets, value?, hrest, itemsFrom_bracket, hitem, Nat.succ_lt_succ_iff]
      split
      · simp only [Option.bind_eq_bind, Option.bind_some, (trivia_bracket tail).2]
        rfl
      · rfl

def nestedText (count : Nat) : String := String.ofList ('x' :: '=' :: brackets count [])

theorem entryLine_nestedText (limits : Limits) (count : Nat) :
    Draft.entryLine limits {} ('x' :: '=' :: brackets count [])
      = if count < limits.depth then some ({ current := [("x", .closed (nested count))] }, [])
        else none := by
  obtain ⟨depth, narrow⟩ := limits
  cases depth with
  | zero => rfl
  | succ depth =>
    obtain ⟨rest, hrest⟩ := brackets_eq_cons count []
    have hkey : key? ⟨depth + 1, narrow⟩ ('x' :: '=' :: '[' :: rest)
        = some (["x"], '=' :: '[' :: rest) := rfl
    have hvalue := value?_brackets ⟨depth + 1, narrow⟩ (depth + 1) count []
    rw [hrest] at hvalue
    have hentry : entry? ⟨depth + 1, narrow⟩ (value? ⟨depth + 1, narrow⟩ (depth + 1))
        ('x' :: '=' :: '[' :: rest)
          = (value? ⟨depth + 1, narrow⟩ (depth + 1) ('[' :: rest)).bind fun p =>
              some ([], "x", p.1, p.2) := by
      rw [ entry?, hkey]
      rfl
    rw [hrest, Draft.entryLine, hentry, hvalue]
    split
    · rfl
    · rfl

/-- Arrays in each other are a document, and are read up to the depth that the limits set. -/
theorem parse?_nestedText (limits : Limits) (count : Nat) :
    parse? limits (nestedText count)
      = if count < limits.depth then some [("x", nested count)] else none := by
  obtain ⟨rest, hrest⟩ := brackets_eq_cons count []
  have hlines : Draft.lines limits ('x' :: '=' :: brackets count []) {}
      ('x' :: '=' :: brackets count [])
        = (Draft.entryLine limits {} ('x' :: '=' :: brackets count [])).bind fun p =>
            Draft.lines limits ('=' :: brackets count []) p.1 p.2 := rfl
  have htext : (nestedText count).toList = 'x' :: '=' :: brackets count [] := String.toList_ofList
  have hmark : 'x'.toNat ≠ 0xFEFF := by decide
  simp only [parse?, htext, if_neg hmark, hlines, entryLine_nestedText]
  split
  · rfl
  · rfl

theorem valid_nestedText (count : Nat) : Valid (nestedText count) [("x", nested count)] :=
  ⟨count + 1, (parse?_nestedText _ count).trans (if_pos (Nat.lt_succ_self count))⟩

end Rendezvous.Toml
