/-
What the search finds.

The search keeps what it has seen (`mem_reach_of_mem`), and whatever a seen number leads to has been seen as well or is
still pending (`Tracked`); at the end nothing is pending any more, so what was seen is closed under going on. Together
with the soundness of each step this makes the outcome exactly what can be reached (`mem_reach_iff`).
-/
import Mathlib.Logic.Relation
import ClassAtlas.Graph.Reach

namespace ClassAtlas.Graph

open Relation (ReflTransGen)

variable {bound : Nat} {next : Nat → List Nat} {seen : Std.HashSet Nat} {pending : List Nat} {u : Nat}

/-- one step of going on -/
def LeadsTo (next : Nat → List Nat) (v w : Nat) : Prop := w ∈ next v

theorem mem_reach_of_mem (h : u ∈ seen) : u ∈ reach bound next seen pending := by
  fun_induction reach bound next seen pending with
  | case1 seen => exact h
  | case2 seen v pending hv ih => exact ih (Std.HashSet.mem_insert.2 (Or.inr h))
  | case3 seen v pending hv ih => exact ih h

/-- every pending number within the bound is visited -/
theorem mem_reach_of_pending (h : u ∈ pending) (hu : u < bound) : u ∈ reach bound next seen pending := by
  fun_induction reach bound next seen pending with
  | case1 seen => contradiction
  | case2 seen v pending hv ih =>
    rcases List.mem_cons.1 h with rfl | h
    · apply mem_reach_of_mem
      exact Std.HashSet.mem_insert_self
    · exact ih (List.mem_append_right _ h)
  | case3 seen v pending hv ih =>
    rcases List.mem_cons.1 h with rfl | h
    · apply mem_reach_of_mem
      simpa [hu] using hv
    · exact ih h

theorem exists_of_mem_reach (h : u ∈ reach bound next seen pending) :
    u ∈ seen ∨ ∃ p ∈ pending, ReflTransGen (LeadsTo next) p u := by
  fun_induction reach bound next seen pending with
  | case1 seen => exact Or.inl h
  | case2 seen v pending hv ih =>
    rcases ih h with hs | ⟨p, hp, hpath⟩
    · rcases Std.HashSet.mem_insert.1 hs with he | hs
      · obtain rfl := beq_iff_eq.1 he
        exact Or.inr ⟨v, List.mem_cons_self, ReflTransGen.refl⟩
      · exact Or.inl hs
    · right
      rcases List.mem_append.1 hp with hp | hp
      · exact ⟨v, List.mem_cons_self, ReflTransGen.head hp hpath⟩
      · exact ⟨p, List.mem_cons_of_mem v hp, hpath⟩
  | case3 seen v pending hv ih =>
    rcases ih h with hs | ⟨p, hp, hpath⟩
    · exact Or.inl hs
    · exact Or.inr ⟨p, List.mem_cons_of_mem v hp, hpath⟩

/-- whatever a seen number leads to within the bound is seen or pending -/
def Tracked (bound : Nat) (next : Nat → List Nat) (seen : Std.HashSet Nat) (pending : List Nat) : Prop :=
  ∀ v ∈ seen, ∀ w ∈ next v, w < bound → w ∈ seen ∨ w ∈ pending

theorem tracked_reach (h : Tracked bound next seen pending) :
    Tracked bound next (reach bound next seen pending) [] := by
  fun_induction reach bound next seen pending with
  | case1 seen => exact h
  | case2 seen v pending hv ih =>
    -- the new number is seen from here on, and all that it leads to is pending
    apply ih
    intro x hx w hw hlt
    rcases Std.HashSet.mem_insert.1 hx with he | hx
    · obtain rfl := beq_iff_eq.1 he
      exact Or.inr (List.mem_append_left _ hw)
    · rcases h x hx w hw hlt with hs | hp
      · exact Or.inl (Std.HashSet.mem_insert.2 (Or.inr hs))
      · rcases List.mem_cons.1 hp with rfl | hp
        · exact Or.inl Std.HashSet.mem_insert_self
        · exact Or.inr (List.mem_append_right _ hp)
  | case3 seen v pending hv ih =>
    -- the number that is dropped had been seen
    apply ih
    intro x hx w hw hlt
    rcases h x hx w hw hlt with hs | hp
    · exact Or.inl hs
    · rcases List.mem_cons.1 hp with rfl | hp
      · left
        simpa [hlt] using hv
      · exact Or.inr hp

/-- **The search finds what can be reached**, as long as nothing leads out of the bound. -/
theorem mem_reach_iff (hnext : ∀ v, ∀ w ∈ next v, w < bound) (hpending : ∀ p ∈ pending, p < bound) :
    u ∈ reach bound next {} pending ↔ ∃ p ∈ pending, ReflTransGen (LeadsTo next) p u := by
  constructor
  · intro h
    rcases exists_of_mem_reach h with hs | hp
    · simp at hs
    · exact hp
  · rintro ⟨p, hp, hpath⟩
    have hclosed : Tracked bound next (reach bound next {} pending) [] := by
      apply tracked_reach
      intro v hv
      simp at hv
    induction hpath with
    | refl => exact mem_reach_of_pending hp (hpending p hp)
    | @tail v w _ hw ih => exact (hclosed v ih w hw (hnext v w hw)).resolve_right (by simp)

end ClassAtlas.Graph
