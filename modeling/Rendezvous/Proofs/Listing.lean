import Rendezvous.Host.Basic

/-!
# The order of a listing

`Host.Before` puts hosts in the order of their creation, those of one instant in the order of their
ids. Sorting by `Host.le` arranges hosts with different ids so that each is before all later ones,
and there is only one such arrangement.
-/

namespace Rendezvous

namespace Instant

theorem le_iff {a b : Instant} :
    a.le b = true ↔ a.seconds < b.seconds ∨ (a.seconds = b.seconds ∧ a.nanos ≤ b.nanos) := by
  simp only [le, decide_eq_true_eq]

theorem le_refl (a : Instant) : a.le a = true := by
  rw [le_iff]
  omega

theorem le_total (a b : Instant) : a.le b = true ∨ b.le a = true := by
  rw [le_iff, le_iff]
  omega

theorem le_trans {a b c : Instant} (hab : a.le b = true) (hbc : b.le c = true) :
    a.le c = true := by
  rw [le_iff] at *
  omega

theorem le_antisymm {a b : Instant} (hab : a.le b = true) (hba : b.le a = true) : a = b := by
  obtain ⟨s, n, _, _, _, _⟩ := a
  obtain ⟨s', n', _, _, _, _⟩ := b
  simp only [le_iff] at hab hba
  obtain rfl : s = s' := by omega
  obtain rfl : n = n' := by omega
  rfl

end Instant

namespace Host

/-- The host was created earlier, or in the same instant under a smaller id. -/
def Before (a b : Host) : Prop :=
  (a.createdAt ≠ b.createdAt ∧ a.createdAt.le b.createdAt = true) ∨
    (a.createdAt = b.createdAt ∧ a.id < b.id)

theorem le_iff {a b : Host} :
    a.le b = true ↔ a.Before b ∨ (a.createdAt = b.createdAt ∧ a.id = b.id) := by
  unfold le Before
  by_cases h : a.createdAt = b.createdAt
  · rw [if_pos h, decide_eq_true_eq]
    constructor
    · intro hle
      by_cases hid : a.id = b.id
      · exact .inr ⟨h, hid⟩
      · exact .inl (.inr ⟨h, String.not_le.mp fun hge => hid (String.le_antisymm hle hge)⟩)
    · rintro ((⟨hne, _⟩ | ⟨_, hlt⟩) | ⟨_, hid⟩)
      · exact absurd h hne
      · exact String.not_lt.mp fun hgt => String.lt_asymm hlt hgt
      · exact hid ▸ String.le_refl _
  · rw [if_neg h]
    constructor
    · intro hle
      exact .inl (.inl ⟨h, hle⟩)
    · rintro ((⟨_, hle⟩ | ⟨he, _⟩) | ⟨he, _⟩)
      · exact hle
      · exact absurd he h
      · exact absurd he h

theorem Before.irrefl {a : Host} : ¬ a.Before a := by
  rintro (⟨hne, _⟩ | ⟨_, hlt⟩)
  · exact hne rfl
  · exact String.lt_irrefl _ hlt

theorem Before.trans {a b c : Host} (hab : a.Before b) (hbc : b.Before c) : a.Before c := by
  rcases hab with ⟨hab, lab⟩ | ⟨eab, iab⟩
  · rcases hbc with ⟨hbc, lbc⟩ | ⟨ebc, _⟩
    · refine .inl ⟨?_, Instant.le_trans lab lbc⟩
      intro he
      rw [he] at lab
      exact hbc (Instant.le_antisymm lbc lab)
    · exact .inl ⟨ebc ▸ hab, ebc ▸ lab⟩
  · rcases hbc with ⟨hbc, lbc⟩ | ⟨ebc, ibc⟩
    · exact .inl ⟨eab ▸ hbc, eab ▸ lbc⟩
    · exact .inr ⟨eab.trans ebc, String.lt_trans iab ibc⟩

theorem Before.asymm {a b : Host} (hab : a.Before b) (hba : b.Before a) : False :=
  Before.irrefl (hab.trans hba)

theorem le_total (a b : Host) : (a.le b || b.le a) = true := by
  rw [Bool.or_eq_true]
  unfold le
  by_cases h : a.createdAt = b.createdAt
  · rw [if_pos h, if_pos h.symm, decide_eq_true_eq, decide_eq_true_eq]
    exact String.le_total _ _
  · rw [if_neg h, if_neg (Ne.symm h)]
    exact Instant.le_total _ _

theorem le_trans (a b c : Host) (hab : a.le b = true) (hbc : b.le c = true) : a.le c = true := by
  rw [le_iff] at *
  rcases hab with hab | ⟨eab, iab⟩
  · rcases hbc with hbc | ⟨ebc, ibc⟩
    · exact .inl (hab.trans hbc)
    · left
      unfold Before at *
      rwa [← ebc, ← ibc]
  · rcases hbc with hbc | ⟨ebc, ibc⟩
    · left
      unfold Before at *
      rwa [eab, iab]
    · exact .inr ⟨eab.trans ebc, iab.trans ibc⟩

/-- Sorted hosts with different ids are each before all later ones. -/
theorem before_of_sorted {hosts : List Host} (hs : hosts.Pairwise fun a b => a.le b = true)
    (hn : (hosts.map (·.id)).Nodup) : hosts.Pairwise Before := by
  have hne : hosts.Pairwise fun a b => a.id ≠ b.id := List.pairwise_map.mp hn
  refine (hs.and hne).imp ?_
  rintro a b ⟨hle, hid⟩
  rcases le_iff.mp hle with h | ⟨_, he⟩
  · exact h
  · exact absurd he hid

theorem before_mergeSort {hosts : List Host} (hn : (hosts.map (·.id)).Nodup) :
    (hosts.mergeSort Host.le).Pairwise Before := by
  refine before_of_sorted (List.pairwise_mergeSort le_trans le_total hosts) ?_
  exact (((List.mergeSort_perm hosts Host.le).map (·.id)).nodup_iff).mpr hn

theorem nodup_of_before {hosts : List Host} (h : hosts.Pairwise Before) : hosts.Nodup := by
  refine List.Pairwise.imp ?_ h
  rintro a b hab rfl
  exact Before.irrefl hab

/-- Hosts can be put in order in one way only. -/
theorem eq_of_before {xs ys : List Host} (hx : xs.Pairwise Before) (hy : ys.Pairwise Before)
    (hm : ∀ h, h ∈ xs ↔ h ∈ ys) : xs = ys := by
  have hp : xs.Perm ys :=
    (List.perm_ext_iff_of_nodup (nodup_of_before hx) (nodup_of_before hy)).mpr hm
  exact hp.eq_of_pairwise (fun _ _ _ _ hab hba => (hab.asymm hba).elim) hx hy

end Host
end Rendezvous
