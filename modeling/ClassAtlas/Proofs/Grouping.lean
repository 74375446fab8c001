/-
Elements that may be left out of a list: repeated ones, and ones that give nothing.

`distinct` is defined from the front of a list. Where a list grows at its end, what matters is whether the new element
has occurred before: if so nothing changes, and otherwise it comes last. So `distinct` keeps what stands at the places
where an element is used for the first time (`distinct_eq_firstUses`), and leaving out repetitions before a list is
mapped changes nothing if they are left out afterwards as well (`distinct_filterMap_distinct`).
-/
import Mathlib.Data.Finset.Card
import Mathlib.Data.List.Induction
import ClassAtlas.Grouping

namespace ClassAtlas

/-- elements that give nothing may be left out -/
theorem flatMap_filter_of_nil {α β : Type} {p : α → Bool} {f : α → List β} (h : ∀ a, p a = false → f a = [])
    (l : List α) : (l.filter p).flatMap f = l.flatMap f := by
  induction l with
  | nil => rfl
  | cons a l ih =>
    rw [List.flatMap_cons, ← ih]
    cases ha : p a with
    | true => rw [List.filter_cons_of_pos ha, List.flatMap_cons]
    | false => rw [List.filter_cons_of_neg (by simp [ha]), h a ha, List.nil_append]

theorem textLe_eq_true (a b : Text) : textLe a b = true ↔ ¬ b < a := by
  simp [textLe]

variable {α : Type} [BEq α] [LawfulBEq α] {a : α} {l : List α}

theorem mem_distinct : a ∈ distinct l ↔ a ∈ l := by
  induction l with
  | nil => simp [distinct]
  | cons b l ih =>
    by_cases h : a = b
    · simp [distinct, h]
    · simp [distinct, h, ih]

theorem nodup_distinct (l : List α) : (distinct l).Nodup := by
  induction l with
  | nil => exact List.nodup_nil
  | cons a l ih =>
    rw [distinct, List.nodup_cons]
    exact ⟨fun h => by simp at h, ih.filter _⟩

theorem length_distinct [DecidableEq α] (l : List α) : (distinct l).length = l.toFinset.card := by
  rw [← List.toFinset_card_of_nodup (nodup_distinct l)]
  congr 1
  ext a
  simp [mem_distinct]

theorem distinct_snoc_of_not_mem (h : a ∉ l) : distinct (l ++ [a]) = distinct l ++ [a] := by
  induction l with
  | nil => rfl
  | cons b l ih =>
    obtain ⟨hb, hl⟩ := not_or.1 (mt List.mem_cons.2 h)
    simp [distinct, ih hl, hb]

theorem distinct_snoc_of_mem (h : a ∈ l) : distinct (l ++ [a]) = distinct l := by
  induction l with
  | nil => contradiction
  | cons b l ih =>
    by_cases hl : a ∈ l
    · simp [distinct, ih hl]
    · -- the one occurrence is in front, which filters the new one out
      obtain rfl : a = b := by simpa [hl] using h
      simp [distinct, distinct_snoc_of_not_mem hl]

/-- what stands at the places before which it does not occur -/
def firstUses (l : List α) : List α := (l.zipIdx.filter fun p => !(l.take p.2).contains p.1).map Prod.fst

theorem firstUses_snoc (l : List α) (a : α) :
    firstUses (l ++ [a]) = firstUses l ++ if l.contains a then [] else [a] := by
  have hbefore : l.zipIdx.filter (fun p => !((l ++ [a]).take p.2).contains p.1) =
      l.zipIdx.filter fun p => !(l.take p.2).contains p.1 := by
    refine List.filter_congr fun p hp => ?_
    have hlt : p.2 < l.length := List.snd_lt_of_mem_zipIdx hp
    rw [List.take_append_of_le_length (Nat.le_of_lt hlt)]
  rw [firstUses, List.zipIdx_append, List.filter_append, hbefore, List.map_append, firstUses]
  cases h : l.contains a <;> simp_all

theorem distinct_eq_firstUses (l : List α) : distinct l = firstUses l := by
  induction l using List.reverseRecOn with
  | nil => rfl
  | append_singleton l a ih =>
    rw [firstUses_snoc, ← ih]
    by_cases h : a ∈ l
    · rw [distinct_snoc_of_mem h, if_pos (by simpa using h), List.append_nil]
    · rw [distinct_snoc_of_not_mem h, if_neg (by simpa using h)]

/-- a value that an element gives may be left out with it if the element occurred before -/
theorem distinct_filterMap_distinct {β : Type} [BEq β] [LawfulBEq β] (f : α → Option β) (l : List α) :
    distinct ((distinct l).filterMap f) = distinct (l.filterMap f) := by
  have hmem : ∀ (l : List α) (b : β), b ∈ (distinct l).filterMap f ↔ b ∈ l.filterMap f := by
    intro l b
    simp only [List.mem_filterMap, mem_distinct]
  induction l using List.reverseRecOn with
  | nil => rfl
  | append_singleton l a ih =>
    by_cases ha : a ∈ l
    · rw [distinct_snoc_of_mem ha, ih, List.filterMap_append]
      cases hb : f a with
      | none => simp [hb]
      | some b =>
        have hold : b ∈ l.filterMap f := List.mem_filterMap.2 ⟨a, ha, hb⟩
        simpa [hb] using (distinct_snoc_of_mem hold).symm
    · rw [distinct_snoc_of_not_mem ha, List.filterMap_append, List.filterMap_append]
      cases hb : f a with
      | none => simpa [hb] using ih
      | some b =>
        -- the element is new, but another one may have given its value
        have hone : [a].filterMap f = [b] := by simp [hb]
        rw [hone]
        by_cases hold : b ∈ l.filterMap f
        · rw [distinct_snoc_of_mem hold, distinct_snoc_of_mem ((hmem l b).2 hold), ih]
        · rw [distinct_snoc_of_not_mem hold, distinct_snoc_of_not_mem (mt (hmem l b).1 hold), ih]

end ClassAtlas
