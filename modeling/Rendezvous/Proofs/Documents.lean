import Rendezvous.Json.Printer
import Rendezvous.Json.Reader
import Rendezvous.Proofs.Bytes

/-!
# Documents as readers make them

The names of an object are sorted, each once, and brackets nest no deeper than the limit. The reader
only returns such documents, and laying the fields of one over another gives one again. Whether
the numbers of a document survive printing is a condition of its own.
-/

namespace Rendezvous

/-! ## Fields in order -/

namespace Fields

/-- Each name is smaller than all later ones. -/
def Sorted (fields : Fields) : Prop := fields.Pairwise fun f g => f.1 < g.1

theorem mem_of_mem_insert {fields : Fields} {name : String} {value : Json} {f : String × Json}
    (h : f ∈ fields.insert name value) : f = (name, value) ∨ f ∈ fields := by
  induction fields with
  | nil => exact .inl (List.mem_singleton.mp h)
  | cons first rest ih =>
    simp only [insert] at h
    split at h
    · rcases List.mem_cons.mp h with rfl | h
      · exact .inl rfl
      · exact .inr (.tail _ h)
    split at h
    · exact List.mem_cons.mp h
    · rcases List.mem_cons.mp h with rfl | h
      · exact .inr (.head _)
      · rcases ih h with rfl | h
        · exact .inl rfl
        · exact .inr (.tail _ h)

theorem Sorted.insert {fields : Fields} (h : fields.Sorted) (name : String) (value : Json) :
    (fields.insert name value).Sorted := by
  induction fields with
  | nil => exact List.pairwise_singleton _ _
  | cons first rest ih =>
    obtain ⟨hfirst, hrest⟩ := List.pairwise_cons.mp h
    simp only [Fields.insert]
    split
    · rename_i heq
      exact List.pairwise_cons.mpr ⟨fun f hf => heq ▸ hfirst f hf, hrest⟩
    split
    · rename_i hlt
      refine List.pairwise_cons.mpr ⟨fun f hf => ?_, h⟩
      rcases List.mem_cons.mp hf with rfl | hf
      · exact hlt
      · exact String.lt_trans hlt (hfirst f hf)
    · rename_i hne hnlt
      refine List.pairwise_cons.mpr ⟨fun f hf => ?_, ih hrest⟩
      rcases mem_of_mem_insert hf with rfl | hf
      · have hle : first.1 ≤ name := String.not_lt.mp hnlt
        exact String.not_le.mp fun hge => hne (String.le_antisymm hge hle)
      · exact hfirst f hf

theorem insert_eq_append {fields : Fields} {name : String} (value : Json)
    (h : ∀ f ∈ fields, f.1 < name) : fields.insert name value = fields ++ [(name, value)] := by
  induction fields with
  | nil => rfl
  | cons first rest ih =>
    have hlt := h first (.head _)
    have hne : name ≠ first.1 := by
      rintro rfl
      exact String.lt_irrefl _ hlt
    rw [insert, if_neg hne, if_neg (String.lt_asymm hlt), ih fun f hf => h f (.tail _ hf)]
    rfl

theorem mem_of_mem_union {fields more : Fields} {f : String × Json}
    (h : f ∈ fields.union more) : f ∈ fields ∨ f ∈ more := by
  induction more generalizing fields with
  | nil => exact .inl h
  | cons first more ih =>
    have h : f ∈ Fields.union (fields.insert first.1 first.2) more := h
    rcases ih h with h | h
    · rcases mem_of_mem_insert h with rfl | h
      · exact .inr (.head _)
      · exact .inl h
    · exact .inr (.tail _ h)

theorem Sorted.union {fields : Fields} (h : fields.Sorted) (more : Fields) :
    (fields.union more).Sorted := by
  induction more generalizing fields with
  | nil => exact h
  | cons first more ih => exact ih (h.insert first.1 first.2)

end Fields

namespace Json

/-! ## Depth and order -/

/-- At most `depth` brackets are open at once, and the names of objects are sorted. -/
def Shaped : (depth : Nat) → Json → Prop
  | 0, .array _ => False
  | 0, .object _ => False
  | depth + 1, .array items => ∀ v ∈ items, Shaped depth v
  | depth + 1, .object fields => Fields.Sorted fields ∧ ∀ f ∈ fields, Shaped depth f.2
  | _, _ => True

theorem fields?_shaped {depth : Nat} {doc : Json} {fields : Fields} (hs : Shaped depth doc)
    (h : doc.fields? = some fields) : Shaped depth (.object fields) := by
  cases doc with
  | object fields' =>
    obtain rfl : fields' = fields := Option.some.inj h
    exact hs
  | _ => cases h

/-- The fields of a document, or none at all if it has no fields. -/
theorem Shaped.fields {depth : Nat} {current : Option Json}
    (h : ∀ doc ∈ current, Shaped (depth + 1) doc) :
    Shaped (depth + 1) (.object ((current.bind fields?).getD [])) := by
  cases hfields : current.bind fields? with
  | none => exact ⟨.nil, fun f hf => by cases hf⟩
  | some fields =>
    obtain ⟨doc, hdoc, hfields⟩ := Option.bind_eq_some_iff.mp hfields
    exact fields?_shaped (h doc hdoc) hfields

/-- Laying fields over a document keeps its depth and order. -/
theorem Shaped.overlay {depth : Nat} {current : Option Json} {patch : Fields}
    (hcurrent : ∀ doc ∈ current, Shaped depth doc) (hpatch : Shaped depth (.object patch)) :
    Shaped depth (Json.overlay current patch) := by
  cases depth with
  | zero => exact hpatch
  | succ depth =>
    have hbase := Shaped.fields hcurrent
    refine ⟨hbase.1.union patch, fun f hf => ?_⟩
    rcases Fields.mem_of_mem_union hf with hf | hf
    · exact hbase.2 f hf
    · exact hpatch.2 f hf

/-! ## What the reader returns -/

theorem within_ok {α : Type} {segment : Segment} {r : Except Failure α} {a : α}
    (h : within segment r = .ok a) : r = .ok a := by
  cases r with
  | error f => cases h
  | ok b => exact h

theorem scalar_shaped {c c' : Cursor} {v : Json} (h : scalar c = .ok (v, c')) (depth : Nat) :
    Shaped depth v := by
  unfold scalar at h
  split at h
  · cases h
  split at h
  · obtain ⟨⟨s, c₁⟩, -, h⟩ := bind_eq_ok h
    cases h
    cases depth <;> trivial
  split at h
  · obtain ⟨⟨n, c₁⟩, -, h⟩ := bind_eq_ok h
    cases h
    cases n <;> cases depth <;> trivial
  split at h
  · obtain ⟨c₁, -, h⟩ := bind_eq_ok h
    cases h
    cases depth <;> trivial
  · obtain ⟨c₁, -, h⟩ := bind_eq_ok h
    cases h
    cases depth <;> trivial
  · cases h

theorem items_all {P : Json → Prop} {item : Cursor → Except Failure (Json × Cursor)}
    (hitem : ∀ {c v c'}, item c = .ok (v, c') → P v) {budget : List UInt8} {place : Nat}
    {seen vs : List Json} {c c' : Cursor} (hseen : ∀ v ∈ seen, P v)
    (h : items item budget place seen c = .ok (vs, c')) : ∀ v ∈ vs, P v := by
  induction budget generalizing place seen c with
  | nil => cases h
  | cons b budget ih =>
    simp only [items] at h
    split at h
    · cases h
    · cases h
      intro v hv
      exact hseen v (List.mem_reverse.mp hv)
    · split at h
      · cases h
      · rename_i v c₂ hread
        refine ih (fun x hx => ?_) h
        rcases List.mem_cons.mp hx with rfl | hx
        · exact hitem (within_ok hread)
        · exact hseen x hx

theorem members_all {P : Json → Prop} {item : Cursor → Except Failure (Json × Cursor)}
    (hitem : ∀ {c v c'}, item c = .ok (v, c') → P v) {budget : List UInt8} {first : Bool}
    {seen fields : Fields} {c c' : Cursor} (hsorted : seen.Sorted) (hseen : ∀ f ∈ seen, P f.2)
    (h : members item budget first seen c = .ok (fields, c')) :
    fields.Sorted ∧ ∀ f ∈ fields, P f.2 := by
  induction budget generalizing first seen c with
  | nil => cases h
  | cons b budget ih =>
    simp only [members] at h
    split at h
    · cases h
    · cases h
      exact ⟨hsorted, hseen⟩
    · split at h
      · cases h
      split at h
      · cases h
      · rename_i hread
        refine ih (hsorted.insert _ _) (fun f hf => ?_) h
        rcases Fields.mem_of_mem_insert hf with rfl | hf
        · exact hitem (within_ok hread)
        · exact hseen f hf

/-- The reader returns documents of the depth it was given, with sorted names. -/
theorem value_shaped {depth : Nat} {c c' : Cursor} {v : Json} (h : value depth c = .ok (v, c')) :
    Shaped depth v := by
  induction depth generalizing c c' v with
  | zero =>
    simp only [value] at h
    split at h
    · cases h
    · exact scalar_shaped h 0
  | succ depth ih =>
    simp only [value] at h
    split at h
    · obtain ⟨⟨vs, c₁⟩, hitems, h⟩ := bind_eq_ok h
      cases h
      exact items_all ih (fun v hv => by cases hv) hitems
    split at h
    · obtain ⟨⟨fields, c₁⟩, hmembers, h⟩ := bind_eq_ok h
      cases h
      exact members_all ih .nil (fun f hf => by cases hf) hmembers
    · exact scalar_shaped h (depth + 1)

theorem parseFirst_shaped {bytes : List UInt8} {v : Json} (h : parseFirst bytes = .ok v) :
    Shaped depthLimit v := by
  obtain ⟨⟨w, c⟩, hread, h⟩ := bind_eq_ok h
  cases h
  exact value_shaped hread

/-- The fields that a reader hands on are shaped as a document of their own. -/
theorem parseFirst_fields_shaped {bytes : List UInt8} {doc : Json} {fields : Fields}
    (h : parseFirst bytes = .ok doc) (hfields : doc.fields? = some fields) :
    Shaped depthLimit (.object fields) :=
  fields?_shaped (parseFirst_shaped h) hfields

/-! ## Numbers -/

/-- `v` is the document or stands somewhere inside it. -/
inductive Part (v : Json) : Json → Prop
  | self : Part v v
  | item {items : List Json} {w : Json} (h : w ∈ items) (part : Part v w) : Part v (.array items)
  | field {fields : Fields} {f : String × Json} (h : f ∈ fields) (part : Part v f.2) :
    Part v (.object fields)

/-- Every number in the document is read back from its own printed text. -/
def NumbersSurvive (doc : Json) : Prop :=
  ∀ n : Numeral, Part n.json doc → parse n.json.print = .ok n.json

theorem NumbersSurvive.item {items : List Json} (h : NumbersSurvive (.array items)) {v : Json}
    (hv : v ∈ items) : NumbersSurvive v :=
  fun n part => h n (.item hv part)

theorem NumbersSurvive.field {fields : Fields} (h : NumbersSurvive (.object fields))
    {f : String × Json} (hf : f ∈ fields) : NumbersSurvive f.2 :=
  fun n part => h n (.field hf part)

theorem numbersSurvive_numeral {n : Numeral} (h : parse n.json.print = .ok n.json) :
    NumbersSurvive n.json := by
  intro m part
  cases m <;> cases n <;> cases part <;> exact h

theorem numbersSurvive_string (s : String) : NumbersSurvive (.string s) := by
  intro m part
  cases m <;> cases part

theorem numbersSurvive_object {fields : Fields} (h : ∀ f ∈ fields, NumbersSurvive f.2) :
    NumbersSurvive (.object fields) := by
  intro n part
  cases hn : n.json with
  | object fields' => cases n <;> cases hn
  | _ =>
    rw [hn] at part
    cases part with
    | field hf part => exact hn ▸ h _ hf n (hn ▸ part)

theorem NumbersSurvive.overlay {current : Option Json} {patch : Fields}
    (hcurrent : ∀ doc ∈ current, NumbersSurvive doc) (hpatch : NumbersSurvive (.object patch)) :
    NumbersSurvive (Json.overlay current patch) := by
  refine numbersSurvive_object fun f hf => ?_
  rcases Fields.mem_of_mem_union hf with hf | hf
  · cases h : current.bind fields? with
    | none =>
      rw [h] at hf
      cases hf
    | some fields =>
      rw [h] at hf
      obtain ⟨doc, hdoc, hfields⟩ := Option.bind_eq_some_iff.mp h
      cases doc with
      | object fields' =>
        obtain rfl : fields' = fields := Option.some.inj hfields
        exact (hcurrent _ hdoc).field hf
      | _ => cases hfields
  · exact hpatch.field hf

end Json
end Rendezvous
