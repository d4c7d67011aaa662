import Rendezvous.Store.Index

/-!
# Laws of indexes

What a look-up finds after `set` and `erase`, and the keys they leave. An index whose keys are all
different holds a pair exactly if a look-up finds it.
-/

namespace Rendezvous.Index

variable {α : Type}

def keys (index : Index α) : List String := index.map (·.1)

@[simp] theorem get?_nil (key : String) : get? ([] : Index α) key = none := rfl

theorem get?_cons (k : String) (v : α) (rest : Index α) (key : String) :
    get? ((k, v) :: rest) key = if key = k then some v else get? rest key := by
  by_cases h : key = k
  · subst h
    simp [get?]
  · have hb : (key == k) = false := beq_eq_false_iff_ne.mpr h
    rw [if_neg h, get?, List.lookup_cons, hb]
    rfl

theorem get?_erase (index : Index α) (key other : String) :
    (index.erase key).get? other = if other = key then none else index.get? other := by
  induction index with
  | nil => simp [erase]
  | cons p rest ih =>
    obtain ⟨k, v⟩ := p
    by_cases hk : k = key
    · subst hk
      have : erase ((k, v) :: rest) k = erase rest k := by simp [erase]
      rw [this, ih, get?_cons]
      split <;> rfl
    · have : erase ((k, v) :: rest) key = (k, v) :: erase rest key := by simp [erase, hk]
      rw [this, get?_cons, get?_cons, ih]
      by_cases ho : other = k
      · subst ho
        simp [hk]
      · simp [ho]

theorem get?_set (index : Index α) (key other : String) (value : α) :
    (index.set key value).get? other = if other = key then some value else index.get? other := by
  rw [set, get?_cons, get?_erase]
  split <;> rfl

@[simp] theorem get?_set_self (index : Index α) (key : String) (value : α) :
    (index.set key value).get? key = some value := by
  rw [get?_set, if_pos rfl]

theorem contains_eq_false {index : Index α} {key : String} :
    index.contains key = false ↔ index.get? key = none := by
  rw [contains, Option.isSome_eq_false_iff, Option.isNone_iff_eq_none]

theorem mem_of_get? {index : Index α} {key : String} {value : α}
    (h : index.get? key = some value) : (key, value) ∈ index := by
  induction index with
  | nil => cases h
  | cons p rest ih =>
    obtain ⟨k, v⟩ := p
    rw [get?_cons] at h
    split at h
    · next hk =>
      cases h
      subst hk
      exact List.mem_cons_self
    · exact List.mem_cons_of_mem _ (ih h)

theorem get?_of_mem {index : Index α} {key : String} {value : α} (hn : index.keys.Nodup)
    (h : (key, value) ∈ index) : index.get? key = some value := by
  induction index with
  | nil => cases h
  | cons p rest ih =>
    obtain ⟨k, v⟩ := p
    simp only [keys, List.map_cons, List.nodup_cons] at hn
    rw [get?_cons]
    rcases List.mem_cons.mp h with heq | hmem
    · cases heq
      rw [if_pos rfl]
    · have hne : key ≠ k := by
        intro he
        subst he
        exact hn.1 (List.mem_map_of_mem (f := (·.1)) hmem)
      rw [if_neg hne]
      exact ih hn.2 hmem

theorem nodup_erase {index : Index α} (hn : index.keys.Nodup) (key : String) :
    (index.erase key).keys.Nodup :=
  hn.sublist (List.filter_sublist.map _)

theorem nodup_set {index : Index α} (hn : index.keys.Nodup) (key : String) (value : α) :
    (index.set key value).keys.Nodup := by
  refine List.nodup_cons.mpr ⟨?_, nodup_erase hn key⟩
  simp [erase]

theorem keys_erase {index : Index α} (hn : index.keys.Nodup) (key : String) :
    (index.erase key).keys = index.keys.erase key := by
  rw [hn.erase_eq_filter]
  unfold keys erase
  rw [List.filter_map]
  rfl

theorem length_erase_of_get?_some {index : Index α} {key : String} {value : α}
    (hn : index.keys.Nodup) (h : index.get? key = some value) :
    (index.erase key).length + 1 = index.length := by
  have hmem : key ∈ index.keys := List.mem_map_of_mem (f := (·.1)) (mem_of_get? h)
  have hlen := congrArg List.length (keys_erase hn key)
  rw [List.length_erase_of_mem hmem] at hlen
  have hpos := List.length_pos_of_mem hmem
  unfold keys at hlen hpos
  simp only [List.length_map] at hlen hpos
  omega

theorem length_erase_of_get?_none {index : Index α} {key : String} (h : index.get? key = none) :
    (index.erase key).length = index.length := by
  induction index with
  | nil => rfl
  | cons p rest ih =>
    obtain ⟨k, v⟩ := p
    rw [get?_cons] at h
    split at h
    · cases h
    · next hne =>
      have hkeep : erase ((k, v) :: rest) key = (k, v) :: erase rest key := by
        simp [erase, Ne.symm hne]
      rw [hkeep, List.length_cons, List.length_cons, ih h]

end Rendezvous.Index
