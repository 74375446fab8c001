/-
Sorting by keys.

Whatever is put in order here is compared by a key: an element may stand before another one unless the key of the
other one comes first. Two keys are equal or one of them comes first, so a sorted list never goes back, and it goes
strictly forward if no key occurs twice (`pairwise_lt_mergeSort`). The identities of classes have a key of their own
each, so their order is strict on any list without repetitions.
-/
import ClassAtlas.ClassId

namespace ClassAtlas

section SortedByKey

variable {α κ : Type} [LT κ] {le : α → α → Bool} {key : α → κ}

theorem le_total_of_key [Std.Asymm (· < · : κ → κ → Prop)] (hle : ∀ a b, le a b = true ↔ ¬ key b < key a) (a b : α) :
    (le a b || le b a) = true := by
  rw [Bool.or_eq_true, hle, hle]
  by_cases h : key b < key a
  · exact Or.inr (Std.Asymm.asymm _ _ h)
  · exact Or.inl h

variable [Std.Trichotomous (· < · : κ → κ → Prop)] [Trans (· < · : κ → κ → Prop) (· < ·) (· < ·)]

theorem not_lt_trans {a b c : κ} (hab : ¬ b < a) (hbc : ¬ c < b) : ¬ c < a := by
  intro hca
  apply hbc
  by_cases h : a < b
  · exact Trans.trans hca h
  · rwa [← Std.Trichotomous.trichotomous (r := (· < ·)) a b h hab]

theorem le_trans_of_key (hle : ∀ a b, le a b = true ↔ ¬ key b < key a) (a b c : α) (hab : le a b = true)
    (hbc : le b c = true) : le a c = true := by
  rw [hle] at hab hbc ⊢
  exact not_lt_trans hab hbc

variable [Std.Asymm (· < · : κ → κ → Prop)]

theorem pairwise_not_lt_mergeSort (hle : ∀ a b, le a b = true ↔ ¬ key b < key a) (l : List α) :
    (l.mergeSort le).Pairwise fun a b => ¬ key b < key a := by
  apply (List.pairwise_mergeSort (le_trans_of_key hle) (le_total_of_key hle) l).imp
  intro a b hab
  exact (hle a b).1 hab

/-- what is sorted by keys that all differ goes strictly forward -/
theorem pairwise_lt_mergeSort (hle : ∀ a b, le a b = true ↔ ¬ key b < key a) {l : List α}
    (hl : l.Pairwise fun a b => key a ≠ key b) : (l.mergeSort le).Pairwise fun a b => key a < key b := by
  have hne : (l.mergeSort le).Pairwise fun a b => key a ≠ key b :=
    (List.mergeSort_perm l le).symm.pairwise hl fun h => Ne.symm h
  apply (hne.and (pairwise_not_lt_mergeSort hle l)).imp
  intro a b hab
  by_cases h : key a < key b
  · exact h
  · exact absurd (Std.Trichotomous.trichotomous (r := (· < ·)) _ _ h hab.2) hab.1

end SortedByKey

namespace ClassId

theorem key_injective {a b : ClassId} (h : a.key = b.key) : a = b := by
  obtain ⟨name, scope, project⟩ := a
  obtain ⟨name', scope', project'⟩ := b
  simpa [key] using h

theorem le_eq_true (a b : ClassId) : le a b = true ↔ ¬ b.key < a.key := by
  simp [le]

theorem listLe_eq_true (a b : List ClassId) : listLe a b = true ↔ ¬ b.map key < a.map key := by
  simp [listLe]

theorem mem_sort {c : ClassId} {ids : List ClassId} : c ∈ sort ids ↔ c ∈ ids := List.mem_mergeSort

/-- identities that do not repeat are sorted strictly -/
theorem pairwise_sort {ids : List ClassId} (h : ids.Nodup) : (sort ids).Pairwise fun a b => a.key < b.key := by
  apply pairwise_lt_mergeSort le_eq_true
  apply h.imp
  intro a b hab hkey
  exact hab (key_injective hkey)

end ClassId

end ClassAtlas
