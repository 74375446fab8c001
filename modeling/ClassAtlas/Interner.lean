/-
Interners: tables that give each value a number, counting from 0 in the order of first use.

`index` is the inverse of the table, and the type holds the proof of it.
-/
import Std.Data.HashMap

namespace ClassAtlas

structure Interner (α : Type) [DecidableEq α] [Hashable α] where
  items : Array α
  index : Std.HashMap α Nat
  /-- a value has a number exactly if it stands in that place -/
  index_eq_some_iff : ∀ (a : α) (i : Nat), index[a]? = some i ↔ items[i]? = some a

namespace Interner

variable {α : Type} [DecidableEq α] [Hashable α]

def empty : Interner α where
  items := #[]
  index := {}
  index_eq_some_iff := by simp

/-- adds a value that has no number yet -/
def push (t : Interner α) (a : α) (h : t.index[a]? = none) : Interner α where
  items := t.items.push a
  index := t.index.insert a t.items.size
  index_eq_some_iff := by
    intro b i
    have hb := t.index_eq_some_iff b i
    have ha : ∀ j : Nat, t.items[j]? ≠ some a := by
      intro j hj
      rw [← t.index_eq_some_iff, h] at hj
      contradiction
    rw [Std.HashMap.getElem?_insert, Array.getElem?_push]
    by_cases hab : a = b
    · subst hab
      by_cases hi : i = t.items.size
      · simp [hi]
      · simp only [BEq.rfl, if_true, Option.some.injEq, if_neg hi]
        constructor
        · intro he
          exact absurd he.symm hi
        · intro he
          exact absurd he (ha i)
    · by_cases hi : i = t.items.size
      · subst hi
        simp [hab, hb]
      · simp [hab, hi, hb]

/-- the number of a value, which is added if it has none -/
def intern (t : Interner α) (a : α) : Interner α × Nat :=
  match h : t.index[a]? with
  | some i => (t, i)
  | none => (t.push a h, t.items.size)

def toList (t : Interner α) : List α := t.items.toList

def size (t : Interner α) : Nat := t.items.size

end Interner

end ClassAtlas
