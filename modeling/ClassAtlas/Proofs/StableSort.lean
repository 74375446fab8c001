/-
Stable sorting.

A list is sorted stably if its elements stand in the order of their keys and those with the same key in the order in
which they were given (`IsStableSort`). The elements of each key and the order of the keys leave no choice, so there is
one such list (`IsStableSort.unique`). Merge sort gives it (`isStableSort_mergeSort`), and so do groups that are put one
after the other (`isStableSort_groupBy`). Hence grouping is sorting (`flatMap_groupBy`).
-/
import Mathlib.Data.List.Count
import ClassAtlas.Proofs.Grouping
import ClassAtlas.Proofs.Sorting

namespace ClassAtlas

/-- `sorted` has the elements of `l` in the order of their keys, and those with one key in the order of `l` -/
structure IsStableSort {α κ : Type} [LT κ] [DecidableEq κ] (key : α → κ) (l sorted : List α) : Prop where
  perm : sorted.Perm l
  ordered : sorted.Pairwise fun a b => ¬ key b < key a
  stable : ∀ k, sorted.filter (fun a => key a = k) = l.filter fun a => key a = k

section StableSort

variable {α κ : Type} {key : α → κ} {l l' sorted sorted' : List α}

theorem key_of_mem_filter [DecidableEq κ] {a : α} {k : κ} (h : a ∈ l.filter fun a => key a = k) : key a = k := by
  simpa using (List.mem_filter.1 h).2

/-- lists that agree on the elements of each key have the same elements -/
theorem perm_of_filter_eq [DecidableEq κ]
    (h : ∀ k, l.filter (fun a => key a = k) = l'.filter fun a => key a = k) : l.Perm l' := by
  classical
  refine List.perm_iff_count.2 fun a => ?_
  have hcount : ∀ l : List α, (l.filter fun b => key b = key a).count a = l.count a := by
    intro l
    exact List.count_filter (decide_eq_true rfl)
  rw [← hcount l, ← hcount l', h]

variable [LT κ] [Std.Asymm (· < · : κ → κ → Prop)]

theorem not_lt_self (k : κ) : ¬ k < k := by
  intro h
  exact Std.Asymm.asymm _ _ h h

/-- no key comes before that of the first element -/
theorem not_lt_head {a b : α} (h : (b :: l).Pairwise fun a b => ¬ key b < key a) (ha : a ∈ b :: l) :
    ¬ key a < key b := by
  rcases List.mem_cons.1 ha with rfl | ha
  · exact not_lt_self (key a)
  · exact (List.pairwise_cons.1 h).1 a ha

variable [DecidableEq κ] [Std.Trichotomous (· < · : κ → κ → Prop)]

theorem eq_of_filter_eq (h : l.Pairwise fun a b => ¬ key b < key a) (h' : l'.Pairwise fun a b => ¬ key b < key a)
    (hfilter : ∀ k, l.filter (fun a => key a = k) = l'.filter fun a => key a = k) : l = l' := by
  have hperm := perm_of_filter_eq hfilter
  induction l generalizing l' with
  | nil => exact hperm.nil_eq
  | cons a l ih =>
    cases l' with
    | nil => exact absurd hperm.symm.nil_eq (List.cons_ne_nil a l).symm
    | cons b l' =>
      -- neither of the two first keys comes before the other
      have hkey : key a = key b := by
        apply Std.Trichotomous.trichotomous (r := (· < ·))
        · exact not_lt_head h' (hperm.mem_iff.1 List.mem_cons_self)
        · exact not_lt_head h (hperm.mem_iff.2 List.mem_cons_self)
      obtain ⟨rfl, -⟩ : a = b ∧ _ := by simpa [List.filter_cons, hkey] using hfilter (key b)
      have hrest : ∀ k, l.filter (fun c => key c = k) = l'.filter fun c => key c = k := by
        intro k
        by_cases hk : key a = k
        · simpa [List.filter_cons, hk] using hfilter k
        · simpa [List.filter_cons, hk] using hfilter k
      rw [ih h.of_cons h'.of_cons hrest (perm_of_filter_eq hrest)]

/-- **One list is sorted stably.** -/
theorem IsStableSort.unique (h : IsStableSort key l sorted) (h' : IsStableSort key l sorted') : sorted = sorted' := by
  apply eq_of_filter_eq h.ordered h'.ordered
  intro k
  rw [h.stable, h'.stable]

variable [Trans (· < · : κ → κ → Prop) (· < ·) (· < ·)] {le : α → α → Bool}

theorem isStableSort_mergeSort (hle : ∀ a b, le a b = true ↔ ¬ key b < key a) (l : List α) :
    IsStableSort key l (l.mergeSort le) where
  perm := List.mergeSort_perm l le
  ordered := pairwise_not_lt_mergeSort hle l
  stable := by
    intro k
    -- the elements of one key are in order already, so they are a part of the sorted list
    have hequal : (l.filter fun a => key a = k).Pairwise fun a b => le a b = true := by
      apply List.pairwise_of_forall_mem_list
      intro a ha b hb
      rw [hle, key_of_mem_filter ha, key_of_mem_filter hb]
      exact not_lt_self k
    have hpart := List.sublist_mergeSort (le_trans_of_key hle) (le_total_of_key hle) hequal List.filter_sublist
    have hfiltered := hpart.filter fun a => key a = k
    simp only [List.filter_filter, Bool.and_self] at hfiltered
    exact (hfiltered.eq_of_length ((List.mergeSort_perm l le).filter _).length_eq.symm).symm

end StableSort

/-! ## Groups -/

section Groups

variable {α : Type} {key : α → Text}

/-- the keys of the groups -/
def groupKeys (key : α → Text) (l : List α) : List Text := (distinct (l.map key)).mergeSort textLe

theorem mem_groupKeys {l : List α} {k : Text} : k ∈ groupKeys key l ↔ ∃ a ∈ l, key a = k := by
  rw [groupKeys, List.mem_mergeSort, mem_distinct, List.mem_map]

theorem nodup_groupKeys (key : α → Text) (l : List α) : (groupKeys key l).Nodup :=
  (List.mergeSort_perm _ _).nodup_iff.2 (nodup_distinct _)

theorem pairwise_groupKeys (key : α → Text) (l : List α) : (groupKeys key l).Pairwise (· < ·) := by
  have hle : ∀ k k', textLe k k' = true ↔ ¬ id k' < id k := textLe_eq_true
  exact pairwise_lt_mergeSort hle (nodup_distinct _)

theorem groupBy_eq (key : α → Text) (l : List α) :
    groupBy key l = (groupKeys key l).map fun k => (k, l.filter fun a => key a = k) := by
  simp only [groupBy, groupKeys, beq_eq_decide]

theorem elements_groupBy (key : α → Text) (l : List α) :
    (groupBy key l).flatMap Prod.snd = (groupKeys key l).flatMap fun k => l.filter fun a => key a = k := by
  rw [groupBy_eq, List.flatMap_map]

theorem mem_of_mem_groupBy {l : List α} {g : Text × List α} {a : α} (hg : g ∈ groupBy key l) (ha : a ∈ g.2) :
    a ∈ l ∧ key a = g.1 := by
  obtain ⟨k, -, rfl⟩ := List.mem_map.1 hg
  simpa using List.mem_filter.1 ha

/-- of several keys that differ only one gives the elements of that key -/
theorem filter_flatMap_keys {ks : List Text} (hks : ks.Nodup) (l : List α) (k : Text) :
    (ks.flatMap fun k' => l.filter fun a => key a = k').filter (fun a => key a = k) =
      if k ∈ ks then l.filter fun a => key a = k else [] := by
  induction ks with
  | nil => rfl
  | cons k' ks ih =>
    obtain ⟨hk', hks⟩ := List.nodup_cons.1 hks
    rw [List.flatMap_cons, List.filter_append, ih hks, List.filter_filter]
    by_cases h : k = k'
    · subst h
      simp [hk']
    · have hother : (l.filter fun a => decide (key a = k) && decide (key a = k')) = [] := by
        apply List.filter_eq_nil_iff.2
        intro a _ ha
        obtain ⟨hk, hk'⟩ : key a = k ∧ key a = k' := by simpa using ha
        exact h (hk.symm.trans hk')
      simp [hother, h]

theorem filter_groupBy (key : α → Text) (l : List α) (k : Text) :
    ((groupBy key l).flatMap Prod.snd).filter (fun a => key a = k) = l.filter fun a => key a = k := by
  rw [elements_groupBy, filter_flatMap_keys (nodup_groupKeys key l)]
  split
  · rfl
  · rename_i hk
    symm
    apply List.filter_eq_nil_iff.2
    intro a ha hka
    exact hk (mem_groupKeys.2 ⟨a, ha, by simpa using hka⟩)

theorem isStableSort_groupBy (key : α → Text) (l : List α) :
    IsStableSort key l ((groupBy key l).flatMap Prod.snd) where
  perm := perm_of_filter_eq (filter_groupBy key l)
  stable := filter_groupBy key l
  ordered := by
    rw [elements_groupBy]
    refine List.pairwise_flatMap.2 ⟨fun k _ => ?_, ?_⟩
    · apply List.pairwise_of_forall_mem_list
      intro a ha b hb
      rw [key_of_mem_filter ha, key_of_mem_filter hb]
      exact not_lt_self k
    · apply (pairwise_groupKeys key l).imp
      intro k k' hlt a ha b hb
      rw [key_of_mem_filter ha, key_of_mem_filter hb]
      exact Std.Asymm.asymm _ _ hlt

/-- groups leave nothing out -/
theorem mem_flatMap_groupBy {l : List α} {a : α} : a ∈ (groupBy key l).flatMap Prod.snd ↔ a ∈ l :=
  (isStableSort_groupBy key l).perm.mem_iff

/-- no element is in two groups -/
theorem nodup_flatMap_groupBy {l : List α} (h : l.Nodup) : ((groupBy key l).flatMap Prod.snd).Nodup :=
  (isStableSort_groupBy key l).perm.nodup_iff.2 h

/-- **Grouping is stable sorting.** -/
theorem flatMap_groupBy (key : α → Text) (l : List α) :
    (groupBy key l).flatMap Prod.snd = l.mergeSort fun a b => textLe (key a) (key b) :=
  (isStableSort_groupBy key l).unique (isStableSort_mergeSort (fun a b => textLe_eq_true (key a) (key b)) l)

end Groups

end ClassAtlas
