import Rendezvous.Proofs.Nesting

/-!
# Documents of any depth

The printer writes documents of any depth, and the reader takes those of a limited one. What it
reads within some limit it reads within any higher one (`value_mono`), so that it refuses exactly
those of the printed documents that are nested too deep (`parse_print_iff`).
-/

namespace Rendezvous.Json

/-! ## Any depth -/

theorem Shaped.succ {depth : Nat} {doc : Json} (h : Shaped depth doc) :
    Shaped (depth + 1) doc := by
  induction depth generalizing doc with
  | zero =>
    cases doc with
    | array items => exact h.elim
    | object fields => exact h.elim
    | _ => trivial
  | succ depth ih =>
    cases doc with
    | array items => exact fun v hv => ih (h v hv)
    | object fields => exact ⟨h.1, fun f hf => ih (h.2 f hf)⟩
    | _ => trivial

theorem Shaped.mono {depth depth' : Nat} {doc : Json} (h : Shaped depth doc)
    (hle : depth ≤ depth') : Shaped depth' doc := by
  induction hle with
  | refl => exact h
  | step _ ih => exact ih.succ

/-- The names of all objects in the document are sorted, however deep they are. -/
def Ordered (doc : Json) : Prop := ∃ depth, Shaped depth doc

theorem Ordered.sorted {fields : Fields} (h : Ordered (.object fields)) : fields.Sorted := by
  obtain ⟨depth, h⟩ := h
  cases depth with
  | zero => exact h.elim
  | succ depth => exact h.1

theorem Ordered.overlay {current : Option Json} {patch : Fields}
    (hcurrent : ∀ doc ∈ current, Ordered doc) (hpatch : Ordered (.object patch)) :
    Ordered (Json.overlay current patch) := by
  obtain ⟨depth, hpatch⟩ := hpatch
  cases current with
  | none => exact ⟨depth, .overlay nofun hpatch⟩
  | some doc =>
    obtain ⟨depth', hdoc⟩ := hcurrent doc rfl
    refine ⟨max depth depth', .overlay (fun doc' h => ?_) (hpatch.mono (Nat.le_max_left _ _))⟩
    exact Option.some.inj h ▸ hdoc.mono (Nat.le_max_right _ _)

/-! ## Readers within a higher limit -/

theorem within_eq_ok {α : Type} {segment : Segment} {read : Except Failure α} {a : α} :
    within segment read = .ok a ↔ read = .ok a := by
  refine ⟨within_ok, ?_⟩
  rintro rfl
  rfl

section

variable {item item' : Cursor → Except Failure (Json × Cursor)}
  (hitem : ∀ {c r}, item c = .ok r → item' c = .ok r)

include hitem

theorem items_mono {budget : List UInt8} {place : Nat} {seen : List Json} {c : Cursor}
    {r : List Json × Cursor} (h : items item budget place seen c = .ok r) :
    items item' budget place seen c = .ok r := by
  induction budget generalizing place seen c with
  | nil => cases h
  | cons b budget ih =>
    simp only [items] at h ⊢
    split at h
    · cases h
    · exact h
    · split at h
      · cases h
      · next hread =>
        simp only [within_eq_ok.mpr (hitem (within_ok hread))]
        exact ih h

theorem members_mono {budget : List UInt8} {first : Bool} {seen : Fields} {c : Cursor}
    {r : Fields × Cursor} (h : members item budget first seen c = .ok r) :
    members item' budget first seen c = .ok r := by
  induction budget generalizing first seen c with
  | nil => cases h
  | cons b budget ih =>
    simp only [members] at h ⊢
    split at h
    · cases h
    · exact h
    · split at h
      · cases h
      split at h
      · cases h
      · next hread =>
        simp only [within_eq_ok.mpr (hitem (within_ok hread))]
        exact ih h

end

theorem value_succ {depth : Nat} {c : Cursor} {r : Json × Cursor} (h : value depth c = .ok r) :
    value (depth + 1) c = .ok r := by
  induction depth generalizing c r with
  | zero =>
    simp only [value] at h ⊢
    split at h
    · cases h
    · next hbracket =>
      rw [not_or] at hbracket
      rw [if_neg hbracket.1, if_neg hbracket.2]
      exact h
  | succ depth ih =>
    rw [value] at h ⊢
    dsimp only at h ⊢
    split
    · next hsquare =>
      rw [if_pos hsquare] at h
      obtain ⟨read, hread, h⟩ := bind_eq_ok h
      rw [items_mono ih hread]
      exact h
    · next hsquare =>
      rw [if_neg hsquare] at h
      split
      · next hcurly =>
        rw [if_pos hcurly] at h
        obtain ⟨read, hread, h⟩ := bind_eq_ok h
        rw [members_mono ih hread]
        exact h
      · next hcurly =>
        rw [if_neg hcurly] at h
        exact h

/-- What is read within some limit is read within any higher one. -/
theorem value_mono {depth depth' : Nat} (hle : depth ≤ depth') {c : Cursor} {r : Json × Cursor}
    (h : value depth c = .ok r) : value depth' c = .ok r := by
  induction hle with
  | refl => exact h
  | step _ ih => exact value_succ ih

/-! ## Printed documents -/

/-- Whatever is read from a printed document is the document, within any limit. -/
theorem Ordered.value_print {doc : Json} (hdoc : Ordered doc) (hnumbers : NumbersSurvive doc)
    {depth : Nat} {r : Json × Cursor}
    (h : value depth { rest := Utf8.encode doc.print } = .ok r) : r.1 = doc := by
  obtain ⟨depth', hdoc⟩ := hdoc
  obtain ⟨c', hread, -⟩ :=
    ((hdoc.mono (Nat.le_max_right depth depth')).readsBack hnumbers).read stops_nil
      (rest_skipSpace_print doc)
  rw [value_mono (Nat.le_max_left depth depth') h] at hread
  exact congrArg Prod.fst (Except.ok.inj hread)

theorem value_of_parse {text : String} {v : Json} (h : parse text = .ok v) :
    ∃ c, value depthLimit { rest := Utf8.encode text } = .ok (v, c) := by
  obtain ⟨⟨w, c⟩, hread, h⟩ := bind_eq_ok h
  obtain ⟨-, -, h⟩ := bind_eq_ok h
  cases h
  exact ⟨c, hread⟩

theorem parse_shaped {text : String} {v : Json} (h : parse text = .ok v) :
    Shaped depthLimit v := by
  obtain ⟨c, hread⟩ := value_of_parse h
  exact value_shaped hread

/-- A printed document is read back if it is not nested too deep, and refused otherwise. -/
theorem parse_print_iff {doc v : Json} (hdoc : Ordered doc) (hnumbers : NumbersSurvive doc) :
    parse doc.print = .ok v ↔ v = doc ∧ Shaped depthLimit doc := by
  constructor
  · intro h
    obtain ⟨c, hread⟩ := value_of_parse h
    obtain rfl := hdoc.value_print hnumbers hread
    exact ⟨rfl, parse_shaped h⟩
  · rintro ⟨rfl, hshaped⟩
    exact parse_print hshaped hnumbers

/-- Nothing that the document has to say is nested too deep for the reader. -/
def Readable (document : Option Json) : Prop := ∀ doc ∈ document, Shaped depthLimit doc

theorem readable_none : Readable none := nofun

theorem readable_some {doc : Json} : Readable (some doc) ↔ Shaped depthLimit doc :=
  ⟨fun h => h doc rfl, fun h _ he => Option.some.inj he ▸ h⟩

/-! ### Arrays inside arrays -/

/-- As many arrays as told around an empty one. -/
def nested : Nat → Json
  | 0 => .array []
  | n + 1 => .array [nested n]

theorem shaped_nested {depth n : Nat} : Shaped depth (nested n) ↔ n < depth := by
  induction n generalizing depth with
  | zero =>
    cases depth with
    | zero => exact iff_of_false id (Nat.lt_irrefl 0)
    | succ depth => exact iff_of_true nofun (Nat.succ_pos depth)
  | succ n ih =>
    cases depth with
    | zero => exact iff_of_false id (Nat.not_lt_zero _)
    | succ depth =>
      rw [Nat.add_lt_add_iff_right, ← ih]
      exact List.forall_mem_singleton

theorem numbersSurvive_nested (n : Nat) : NumbersSurvive (nested n) := by
  intro m part
  induction n with
  | zero =>
    cases m with
    | int | real =>
      cases part with
      | item h => cases h
  | succ n ih =>
    cases m with
    | int | real =>
      cases part with
      | item h part =>
        obtain rfl := List.mem_singleton.mp h
        exact ih part

end Rendezvous.Json
