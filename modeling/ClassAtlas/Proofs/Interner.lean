/-
What an interner holds.

An interner is a list without repetitions in which every value knows its place. Giving numbers to a whole sequence of
values leaves the distinct ones in the order of their first use (`toList_intern_distinct` is the step), no number is
ever given to another value (`getElem?_intern_of_some`), and the number that `intern` answers is the place of the value
(`getElem?_intern`).
-/
import ClassAtlas.Interner
import ClassAtlas.Proofs.Grouping

namespace ClassAtlas.Interner

variable {α : Type} [DecidableEq α] [Hashable α] {t : Interner α} {a : α} {i j : Nat}

theorem getElem?_toList (t : Interner α) (i : Nat) : t.toList[i]? = t.items[i]? := by
  simp [toList]

theorem mem_toList : a ∈ t.toList ↔ ∃ i : Nat, t.items[i]? = some a := by
  simp only [List.mem_iff_getElem?, getElem?_toList]

/-- a value stands in one place only -/
theorem eq_of_getElem? (hi : t.items[i]? = some a) (hj : t.items[j]? = some a) : i = j := by
  rw [← t.index_eq_some_iff] at hi hj
  exact Option.some.inj (hi.symm.trans hj)

theorem nodup_toList (t : Interner α) : t.toList.Nodup := by
  refine List.pairwise_iff_getElem.2 fun i j hi hj hlt he => ?_
  have hplace : t.items[j]? = some t.toList[j] := by rw [← getElem?_toList, List.getElem?_eq_getElem hj]
  have hsame : t.items[i]? = some t.toList[j] := by rw [← getElem?_toList, List.getElem?_eq_getElem hi, he]
  exact Nat.ne_of_lt hlt (eq_of_getElem? hsame hplace)

theorem intern_of_getElem? (h : t.items[i]? = some a) : t.intern a = (t, i) := by
  have hindex := (t.index_eq_some_iff a i).2 h
  unfold intern
  split
  · rename_i j hj
    rw [hindex] at hj
    rw [Option.some.inj hj]
  · rename_i hnone
    rw [hindex] at hnone
    contradiction

theorem toList_intern_of_not_mem (h : a ∉ t.toList) :
    (t.intern a).1.toList = t.toList ++ [a] ∧ (t.intern a).2 = t.toList.length := by
  unfold intern
  split
  · rename_i i hi
    exact absurd (mem_toList.2 ⟨i, (t.index_eq_some_iff a i).1 hi⟩) h
  · simp [toList, push]

/-- a value stands in the place that it is given -/
theorem getElem?_intern (t : Interner α) (a : α) : (t.intern a).1.items[(t.intern a).2]? = some a := by
  by_cases h : a ∈ t.toList
  · obtain ⟨i, hi⟩ := mem_toList.1 h
    rw [intern_of_getElem? hi]
    exact hi
  · obtain ⟨hlist, hplace⟩ := toList_intern_of_not_mem h
    rw [← getElem?_toList, hlist, hplace]
    simp

/-- no place is ever taken away -/
theorem getElem?_intern_of_some {b : α} (h : t.items[i]? = some b) (a : α) : (t.intern a).1.items[i]? = some b := by
  by_cases ha : a ∈ t.toList
  · obtain ⟨j, hj⟩ := mem_toList.1 ha
    rw [intern_of_getElem? hj]
    exact h
  · rw [← getElem?_toList] at h ⊢
    rw [(toList_intern_of_not_mem ha).1, List.getElem?_append_left (List.getElem?_eq_some_iff.1 h).1]
    exact h

/-- one more value of a sequence -/
theorem toList_intern_distinct [BEq α] [LawfulBEq α] {l : List α} (h : t.toList = distinct l) (a : α) :
    (t.intern a).1.toList = distinct (l ++ [a]) := by
  by_cases ha : a ∈ t.toList
  · obtain ⟨i, hi⟩ := mem_toList.1 ha
    rw [h, mem_distinct] at ha
    rw [intern_of_getElem? hi, distinct_snoc_of_mem ha]
    exact h
  · rw [(toList_intern_of_not_mem ha).1, h]
    rw [h, mem_distinct] at ha
    exact (distinct_snoc_of_not_mem ha).symm

end ClassAtlas.Interner
