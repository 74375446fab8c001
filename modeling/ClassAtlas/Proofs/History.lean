/-
What the registry remembers of a sequence of registrations.

A registration gives one or two keys an owner, so a sequence of registrations is a history of such insertions. One
insertion sets its key, and notes a collision if the key had another owner before. By induction from the end of the
history a key holds the last owner that it was given, the registry has as many keys as the history, and the collisions
are the insertions that changed an owner, in the order of time (`collisions_ofHistory`). Those of one key are the steps
of its owners from one to the next (`collisions_of_key`), and there are none at all exactly if every key has one owner
only (`collisions_eq_nil_iff`).
-/
import Mathlib.Data.Finset.Card
import Mathlib.Data.List.Destutter
import ClassAtlas.Proofs.Registry

namespace ClassAtlas

/-! ## Steps of a list -/

section Steps

variable {α : Type}

/-- the pairs of neighbours -/
def consecutive (l : List α) : List (α × α) := l.zip l.tail

theorem consecutive_snoc (l : List α) (a : α) :
    consecutive (l ++ [a]) = consecutive l ++ (l.getLast?.map fun b => (b, a)).toList := by
  induction l with
  | nil => rfl
  | cons b l ih =>
    cases l with
    | nil => rfl
    | cons c l => simpa [consecutive] using ih

variable [DecidableEq α]

theorem getLast?_destutter' (l : List α) (b : α) : (l.destutter' (· ≠ ·) b).getLast? = (b :: l).getLast? := by
  induction l generalizing b with
  | nil => rfl
  | cons c l ih =>
    rw [List.getLast?_cons_cons]
    by_cases h : b = c
    · subst h
      rw [List.destutter'_cons_neg _ (by simp)]
      exact ih b
    · rw [List.destutter'_cons_pos _ h, List.getLast?_cons, ih]
      simp [List.getLast?_cons]

theorem getLast?_destutter (l : List α) : (l.destutter (· ≠ ·)).getLast? = l.getLast? := by
  cases l with
  | nil => rfl
  | cons b l => exact getLast?_destutter' l b

theorem destutter'_snoc (l : List α) (b a : α) :
    (l ++ [a]).destutter' (· ≠ ·) b =
      l.destutter' (· ≠ ·) b ++ if (b :: l).getLast? = some a then [] else [a] := by
  induction l generalizing b with
  | nil =>
    by_cases h : b = a
    · simp [h]
    · simp [h]
  | cons c l ih =>
    rw [List.cons_append, List.getLast?_cons_cons]
    by_cases h : b = c
    · subst h
      rw [List.destutter'_cons_neg _ (by simp), List.destutter'_cons_neg _ (by simp)]
      exact ih b
    · rw [List.destutter'_cons_pos _ h, List.destutter'_cons_pos _ h, ih, List.cons_append]

/-- an element at the end is a repetition if it was the last one already -/
theorem destutter_snoc (l : List α) (a : α) :
    (l ++ [a]).destutter (· ≠ ·) = l.destutter (· ≠ ·) ++ if l.getLast? = some a then [] else [a] := by
  cases l with
  | nil => simp
  | cons b l => exact destutter'_snoc l b a

/-- one more element gives one more step, if it differs from the last one -/
theorem consecutive_destutter_snoc (l : List α) (a : α) :
    consecutive ((l ++ [a]).destutter (· ≠ ·)) = consecutive (l.destutter (· ≠ ·)) ++
      (l.getLast?.bind fun b => if b = a then none else some (b, a)).toList := by
  rw [destutter_snoc]
  cases hl : l.getLast? with
  | none => simp [consecutive_snoc, getLast?_destutter, hl]
  | some b =>
    by_cases h : b = a
    · simp [h]
    · simp [h, consecutive_snoc, getLast?_destutter, hl]

end Steps

namespace Registry

/-! ## Histories -/

/-- the keys that a registration gives an owner: the qualified name, if there is a scope, and then the bare one -/
def insertions (c : ClassId) : List (Text × Owner) :=
  if c.scope = [] then [(c.name, ⟨c.scope, c.project⟩)]
  else [(c.scope ++ '.' :: c.name, ⟨c.scope, c.project⟩), (c.name, ⟨c.scope, c.project⟩)]

def history (cs : List ClassId) : List (Text × Owner) := cs.flatMap insertions

/-- the owners that a key is given, in order -/
def ownersOf (h : List (Text × Owner)) (key : Text) : List Owner := (h.filter fun i => i.1 = key).map Prod.snd

/-- the collision that an insertion is, given what its key held before -/
def collision? (previous : Option Owner) (i : Text × Owner) : Option Collision :=
  previous.bind fun owner => if owner = i.2 then none else some ⟨i.1, owner, i.2⟩

/-- the collision at a point of time: the key had another owner before -/
def collisionAt? (h : List (Text × Owner)) (time : Nat) : Option Collision :=
  h[time]?.bind fun i => collision? (ownersOf (h.take time) i.1).getLast? i

/-- the registry after a history -/
def ofHistory (h : List (Text × Owner)) : Registry := h.foldl (fun r i => r.insert i.1 i.2) {}

theorem ofHistory_snoc (h : List (Text × Owner)) (i : Text × Owner) :
    ofHistory (h ++ [i]) = (ofHistory h).insert i.1 i.2 := by
  simp [ofHistory, List.foldl_append]

theorem ownersOf_snoc (h : List (Text × Owner)) (i : Text × Owner) (key : Text) :
    ownersOf (h ++ [i]) key = ownersOf h key ++ if i.1 = key then [i.2] else [] := by
  by_cases hk : i.1 = key
  · simp [ownersOf, hk]
  · simp [ownersOf, hk]

theorem mem_ownersOf {h : List (Text × Owner)} {key : Text} {owner : Owner} :
    owner ∈ ownersOf h key ↔ (key, owner) ∈ h := by
  simp [ownersOf]

theorem register_eq (r : Registry) (c : ClassId) :
    r.register c = (insertions c).foldl (fun r i => r.insert i.1 i.2) r := by
  by_cases hs : c.scope = []
  · simp [register, keysOf, insertions, hs]
  · simp [register, keysOf, insertions, qualify, hs]

theorem ofClasses_eq (cs : List ClassId) : ofClasses cs = ofHistory (history cs) := by
  simp only [ofClasses, ofHistory, history, List.foldl_flatMap, ← register_eq]

/-! ## One insertion -/

theorem collisions_insert (r : Registry) (i : Text × Owner) :
    (r.insert i.1 i.2).collisions = r.collisions ++ (collision? (r.lookup? i.1) i).toList := by
  unfold insert collisions collision?
  cases r.lookup? i.1 with
  | none => simp
  | some owner =>
    by_cases h : owner = i.2
    · simp [h]
    · simp [h]

theorem size_insert (r : Registry) (i : Text × Owner) :
    (r.insert i.1 i.2).size = if (r.lookup? i.1).isSome then r.size else r.size + 1 := by
  simp only [size, insert, lookup?, Std.HashMap.size_insert, Std.HashMap.isSome_getElem?_iff_mem]

/-! ## A whole history -/

theorem lookup?_ofHistory (h : List (Text × Owner)) (key : Text) :
    (ofHistory h).lookup? key = (ownersOf h key).getLast? := by
  induction h using List.reverseRecOn with
  | nil => exact lookup?_empty key
  | append_singleton h i ih =>
    rw [ofHistory_snoc, lookup?_insert, ownersOf_snoc, ih]
    by_cases hk : i.1 = key
    · simp [hk]
    · simp [hk]

theorem isSome_lookup?_ofHistory {h : List (Text × Owner)} {key : Text} :
    ((ofHistory h).lookup? key).isSome ↔ key ∈ h.map Prod.fst := by
  rw [lookup?_ofHistory, List.getLast?_isSome, ← List.length_pos_iff, List.length_pos_iff_exists_mem]
  simp [mem_ownersOf]

/-- there are as many keys as the history mentions -/
theorem size_ofHistory (h : List (Text × Owner)) : (ofHistory h).size = (h.map Prod.fst).toFinset.card := by
  induction h using List.reverseRecOn with
  | nil => rfl
  | append_singleton h i ih =>
    have hkeys : ((h ++ [i]).map Prod.fst).toFinset = Insert.insert i.1 (h.map Prod.fst).toFinset := by
      ext key
      simp
    rw [ofHistory_snoc, size_insert, ih, hkeys]
    by_cases hk : i.1 ∈ h.map Prod.fst
    · rw [if_pos (isSome_lookup?_ofHistory.2 hk), Finset.insert_eq_of_mem (List.mem_toFinset.2 hk)]
    · rw [if_neg (mt isSome_lookup?_ofHistory.1 hk), Finset.card_insert_of_notMem (mt List.mem_toFinset.1 hk)]

/-- the past alone decides whether an insertion is a collision -/
theorem collisionAt?_snoc (h : List (Text × Owner)) (i : Text × Owner) {time : Nat} (ht : time < h.length) :
    collisionAt? (h ++ [i]) time = collisionAt? h time := by
  rw [collisionAt?, collisionAt?, List.getElem?_append_left ht, List.take_append_of_le_length (Nat.le_of_lt ht)]

theorem collisionAt?_last (h : List (Text × Owner)) (i : Text × Owner) :
    collisionAt? (h ++ [i]) h.length = collision? ((ofHistory h).lookup? i.1) i := by
  rw [collisionAt?, List.getElem?_concat_length, List.take_left' rfl, lookup?_ofHistory]
  rfl

/-- **Collisions come in the order of time.** -/
theorem collisions_ofHistory (h : List (Text × Owner)) :
    (ofHistory h).collisions = (List.range h.length).filterMap (collisionAt? h) := by
  induction h using List.reverseRecOn with
  | nil => rfl
  | append_singleton h i ih =>
    have hpast : (List.range h.length).filterMap (collisionAt? (h ++ [i])) =
        (List.range h.length).filterMap (collisionAt? h) :=
      List.filterMap_congr fun time ht => collisionAt?_snoc h i (List.mem_range.1 ht)
    have hnow : [h.length].filterMap (collisionAt? (h ++ [i])) = (collisionAt? (h ++ [i]) h.length).toList := by
      cases hc : collisionAt? (h ++ [i]) h.length with
      | none => simp [hc]
      | some c => simp [hc]
    calc (ofHistory (h ++ [i])).collisions
        = (ofHistory h).collisions ++ (collision? ((ofHistory h).lookup? i.1) i).toList := by
          rw [ofHistory_snoc, collisions_insert]
      _ = (List.range h.length).filterMap (collisionAt? (h ++ [i])) ++
            [h.length].filterMap (collisionAt? (h ++ [i])) := by
          rw [hpast, ← ih, hnow, collisionAt?_last]
      _ = (List.range (h ++ [i]).length).filterMap (collisionAt? (h ++ [i])) := by
          rw [← List.filterMap_append, ← List.range_succ, List.length_append, List.length_singleton]

/-- **The collisions of a key** are the steps from one of its owners to the next, repetitions apart. -/
theorem collisions_of_key (h : List (Text × Owner)) (key : Text) :
    ((ofHistory h).collisions.filter fun c => c.key = key) =
      (consecutive ((ownersOf h key).destutter (· ≠ ·))).map fun p => ⟨key, p.1, p.2⟩ := by
  induction h using List.reverseRecOn with
  | nil => rfl
  | append_singleton h i ih =>
    rw [ofHistory_snoc, collisions_insert, List.filter_append, ih, lookup?_ofHistory, ownersOf_snoc]
    by_cases hk : i.1 = key
    · rw [if_pos hk, hk, consecutive_destutter_snoc, List.map_append, collision?]
      cases (ownersOf h key).getLast? with
      | none => rfl
      | some owner =>
        by_cases ho : owner = i.2
        · simp [ho]
        · simp [ho, hk]
    · -- an insertion under another key adds neither an owner nor a collision of this one
      have hother : ((collision? (ownersOf h i.1).getLast? i).toList.filter fun c => c.key = key) = [] := by
        apply List.filter_eq_nil_iff.2
        intro c hc
        obtain ⟨owner, -, hsome⟩ := Option.bind_eq_some_iff.1 (Option.mem_toList.1 hc)
        obtain ⟨-, heq⟩ := Option.ite_none_left_eq_some.1 hsome
        rw [← Option.some.inj heq]
        simpa using hk
      rw [if_neg hk, hother, List.append_nil, List.append_nil]

/-! ## Histories without collisions -/

/-- no key is given two owners -/
def Unambiguous (h : List (Text × Owner)) : Prop := ∀ i ∈ h, ∀ j ∈ h, i.1 = j.1 → i.2 = j.2

instance (h : List (Text × Owner)) : Decidable (Unambiguous h) :=
  inferInstanceAs (Decidable (∀ i ∈ h, ∀ j ∈ h, i.1 = j.1 → i.2 = j.2))

theorem unambiguous_snoc {h : List (Text × Owner)} {i : Text × Owner} :
    Unambiguous (h ++ [i]) ↔ Unambiguous h ∧ ∀ j ∈ h, j.1 = i.1 → j.2 = i.2 := by
  constructor
  · intro hu
    have hold : ∀ j ∈ h, j ∈ h ++ [i] := fun j hj => List.mem_append_left _ hj
    have hnew : i ∈ h ++ [i] := List.mem_append_right _ List.mem_cons_self
    exact ⟨fun j hj k hk => hu j (hold j hj) k (hold k hk), fun j hj => hu j (hold j hj) i hnew⟩
  · rintro ⟨hu, hi⟩ j hj k hk hkey
    rw [List.mem_append, List.mem_singleton] at hj hk
    rcases hj with hj | rfl
    · rcases hk with hk | rfl
      · exact hu j hj k hk hkey
      · exact hi j hj hkey
    · rcases hk with hk | rfl
      · exact (hi k hk hkey.symm).symm
      · rfl

/-- then the registry holds what it was given, whenever that was -/
theorem lookup?_eq_some_iff {h : List (Text × Owner)} (hu : Unambiguous h) {key : Text} {owner : Owner} :
    (ofHistory h).lookup? key = some owner ↔ (key, owner) ∈ h := by
  constructor
  · intro hlookup
    rw [lookup?_ofHistory] at hlookup
    exact mem_ownersOf.1 (List.mem_of_getLast? hlookup)
  · intro hmem
    obtain ⟨last, hlast⟩ := Option.isSome_iff_exists.1 (isSome_lookup?_ofHistory.2 (List.mem_map_of_mem hmem))
    have hlastMem : (key, last) ∈ h := by
      rw [lookup?_ofHistory] at hlast
      exact mem_ownersOf.1 (List.mem_of_getLast? hlast)
    have hsame : owner = last := hu (key, owner) hmem (key, last) hlastMem rfl
    rw [hsame]
    exact hlast

theorem collisions_eq_nil_iff (h : List (Text × Owner)) : (ofHistory h).collisions = [] ↔ Unambiguous h := by
  induction h using List.reverseRecOn with
  | nil => simp [ofHistory, collisions, Unambiguous]
  | append_singleton h i ih =>
    rw [ofHistory_snoc, collisions_insert, List.append_eq_nil_iff, ih, unambiguous_snoc]
    apply and_congr_right
    intro hu
    -- the key of the new insertion holds what the history gave it
    have hnone : collision? ((ofHistory h).lookup? i.1) i = none ↔ ∀ owner, (i.1, owner) ∈ h → owner = i.2 := by
      simp only [collision?, Option.bind_eq_none_iff, lookup?_eq_some_iff hu, ite_eq_left_iff, reduceCtorEq, imp_false,
        Decidable.not_not]
    rw [Option.toList_eq_nil_iff, hnone]
    constructor
    · rintro hi ⟨key, owner⟩ hj rfl
      exact hi owner hj
    · intro hi owner hj
      exact hi (i.1, owner) hj rfl

/-! ## Registrations -/

/-- **What the registry remembers.** A key holds the last owner that it was given, and none if it was never given one.
There are as many keys as were given an owner. The collisions of a key are the consecutive pairs of its owners after
adjacent repetitions are removed, and all collisions together stand in the order of time. -/
theorem ofClasses_history (cs : List ClassId) :
    (∀ key, (ofClasses cs).lookup? key = (ownersOf (history cs) key).getLast?) ∧
    (ofClasses cs).size = ((history cs).map Prod.fst).toFinset.card ∧
    (∀ key, ((ofClasses cs).collisions.filter fun c => c.key = key) =
      (consecutive ((ownersOf (history cs) key).destutter (· ≠ ·))).map fun p => ⟨key, p.1, p.2⟩) ∧
    (ofClasses cs).collisions = (List.range (history cs).length).filterMap (collisionAt? (history cs)) := by
  rw [ofClasses_eq]
  exact ⟨lookup?_ofHistory _, size_ofHistory _, collisions_of_key _, collisions_ofHistory _⟩

end Registry

end ClassAtlas
