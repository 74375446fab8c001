/-
Reachability among the numbers below a bound.

`reach` visits what the pending numbers lead to, depth first, and keeps the set of the numbers that it has seen. It
stops because a number is either new, and then fewer unseen ones remain, or leaves the list of pending ones.
-/
import Std.Data.HashSet

namespace ClassAtlas.Graph

/-- the numbers below the bound that have not been seen -/
def unseen (bound : Nat) (seen : Std.HashSet Nat) : Nat := (List.range bound).countP fun v => !seen.contains v

theorem unseen_insert_lt {bound v : Nat} {seen : Std.HashSet Nat} (hv : v < bound) (hs : seen.contains v = false) :
    unseen bound (seen.insert v) < unseen bound seen := by
  unfold unseen
  have hle : ∀ l : List Nat, (l.countP fun u => !(seen.insert v).contains u) ≤ l.countP fun u => !seen.contains u := by
    intro l
    refine List.countP_mono_left fun u _ hu => ?_
    simp only [Std.HashSet.contains_insert, Bool.not_or, Bool.and_eq_true] at hu
    exact hu.2
  obtain ⟨a, b, hab⟩ := List.append_of_mem (List.mem_range.2 hv)
  rw [hab]
  simp only [List.countP_append, List.countP_cons, Std.HashSet.contains_insert, BEq.rfl, Bool.true_or, Bool.not_true,
    hs, Bool.not_false, if_true, Bool.false_eq_true, if_false]
  have ha := hle a
  have hb := hle b
  simp only [Std.HashSet.contains_insert] at ha hb
  omega

/-- what is seen after visiting all that the pending numbers lead to -/
def reach (bound : Nat) (next : Nat → List Nat) (seen : Std.HashSet Nat) : List Nat → Std.HashSet Nat
  | [] => seen
  | v :: pending =>
    if _h : v < bound ∧ seen.contains v = false then reach bound next (seen.insert v) (next v ++ pending)
    else reach bound next seen pending
termination_by pending => (unseen bound seen, pending.length)
decreasing_by
  · exact Prod.Lex.left _ _ (unseen_insert_lt _h.1 _h.2)
  · exact Prod.Lex.right _ (by simp)

end ClassAtlas.Graph
