import Mathlib.Data.List.Induction
import Rendezvous.Proofs.Documents

/-!
# Unions of patches

Patches that are laid over one another, the first over nothing, make the document that has for each
name the value of the latest patch that has it. `Document` says so of a document, and
`document_documentOf` of the one that the patches make.
-/

namespace Rendezvous

namespace Fields

variable {fields more : Fields} {name : String} {value : Json}

theorem get?_cons (f : String × Json) (fields : Fields) (name : String) :
    Fields.get? (f :: fields) name = if name = f.1 then some f.2 else fields.get? name := by
  unfold get?
  rw [List.lookup_cons]
  by_cases h : name = f.1
  · rw [if_pos h, beq_iff_eq.mpr h]
  · rw [if_neg h, beq_eq_false_iff_ne.mpr h]

theorem get?_insert (fields : Fields) (name : String) (value : Json) (k : String) :
    (fields.insert name value).get? k = if k = name then some value else fields.get? k := by
  induction fields with
  | nil => rw [insert, get?_cons]
  | cons f fields ih =>
    rw [insert]
    split
    · rename_i heq
      rw [get?_cons, get?_cons]
      by_cases hk : k = name
      · rw [if_pos hk, if_pos hk]
      · rw [if_neg hk, if_neg hk, if_neg (heq ▸ hk)]
    split
    · rw [get?_cons]
    · rename_i hne _
      rw [get?_cons, get?_cons, ih]
      by_cases hf : k = f.1
      · rw [if_pos hf, if_pos hf, if_neg]
        exact fun hk => hne (hk.symm.trans hf)
      · rw [if_neg hf, if_neg hf]

theorem get?_eq_none_of_sorted {f : String × Json} (h : Fields.Sorted (f :: fields)) :
    fields.get? f.1 = none := by
  refine List.lookup_eq_none_iff.mpr fun g hg => ?_
  have hlt : f.1 < g.1 := (List.pairwise_cons.mp h).1 g hg
  rw [bne_iff_ne]
  intro heq
  rw [← heq] at hlt
  exact String.lt_irrefl _ hlt

/-- The fields of the second object win. -/
theorem get?_union (h : more.Sorted) (fields : Fields) (k : String) :
    (fields.union more).get? k = (more.get? k).or (fields.get? k) := by
  induction more generalizing fields with
  | nil => rfl
  | cons f more ih =>
    have hunion : fields.union (f :: more) = (fields.insert f.1 f.2).union more := rfl
    rw [hunion, ih (List.pairwise_cons.mp h).2, get?_insert, get?_cons]
    by_cases hk : k = f.1
    · rw [if_pos hk, if_pos hk, hk, get?_eq_none_of_sorted h]
      rfl
    · rw [if_neg hk, if_neg hk]

end Fields

/-! ## Documents made of patches -/

/-- The document that patches make, the latest last; none when there are no patches. -/
def documentOf (patches : List Fields) : Option Json :=
  patches.foldl (fun current patch => some (Json.overlay current patch)) none

theorem documentOf_append (patches : List Fields) (patch : Fields) :
    documentOf (patches ++ [patch]) = some (Json.overlay (documentOf patches) patch) := by
  rw [documentOf, List.foldl_append]
  rfl

/-- The value that the latest patch gave to a name, of those that have the name. -/
def latest? (patches : List Fields) (name : String) : Option Json :=
  patches.reverse.findSome? (·.get? name)

theorem latest?_append (patches : List Fields) (patch : Fields) (name : String) :
    latest? (patches ++ [patch]) name = (patch.get? name).or (latest? patches name) := by
  rw [latest?, List.reverse_append, List.reverse_singleton, List.singleton_append,
    List.findSome?_cons]
  cases patch.get? name <;> rfl

/-- The document is the union of the patches, later ones winning: there is none exactly if there are
no patches, and otherwise it is an object with the names of the patches and no others. -/
inductive Document (patches : List Fields) : Option Json → Prop
  | nothing (h : patches = []) : Document patches none
  | object {fields : Fields} (given : patches ≠ []) (sorted : fields.Sorted)
    (latest : ∀ name, fields.get? name = latest? patches name) :
    Document patches (some (.object fields))

def fieldsOf (document : Option Json) : Fields := (document.bind Json.fields?).getD []

namespace Document

variable {patches : List Fields} {document : Option Json}

theorem fields (h : Document patches document) : (fieldsOf document).Sorted ∧
    ∀ name, (fieldsOf document).get? name = latest? patches name := by
  cases h with
  | nothing h =>
    subst h
    exact ⟨.nil, fun name => rfl⟩
  | object _ sorted latest => exact ⟨sorted, latest⟩

theorem overlay (h : Document patches document) {patch : Fields} (hsorted : patch.Sorted) :
    Document (patches ++ [patch]) (some (Json.overlay document patch)) := by
  refine .object (List.append_ne_nil_of_right_ne_nil _ (List.cons_ne_nil _ _))
    (h.fields.1.union patch) fun name => ?_
  rw [latest?_append, ← h.fields.2 name]
  exact Fields.get?_union hsorted _ name

end Document

theorem document_documentOf {patches : List Fields} (h : ∀ patch ∈ patches, patch.Sorted) :
    Document patches (documentOf patches) := by
  induction patches using List.reverseRecOn with
  | nil => exact .nothing rfl
  | append_singleton patches patch ih =>
    rw [documentOf_append]
    refine (ih fun p hp => h p ?_).overlay (h patch ?_)
    · exact List.mem_append.mpr (.inl hp)
    · exact List.mem_append.mpr (.inr (.head _))

end Rendezvous
