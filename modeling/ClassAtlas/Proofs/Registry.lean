/-
What a key of the registry holds after a sequence of registrations.

`lookup?_register` says what one registration does to a key, and `lookup?_ofClasses` what a whole sequence does: the
key holds the owner of the last class that has it among its keys. As long as class names hold no point, the keys tell
their classes apart: a key with a point belongs to one name in one scope (`lookup?_qualified`), and a key without one to
all classes of that name (`lookup?_bare`).
-/
import Mathlib.Data.List.Induction
import ClassAtlas.Proofs.Text
import ClassAtlas.Registry

namespace ClassAtlas.Registry

/-- the owner under which a class is registered -/
def ownerOf (c : ClassId) : Owner := ⟨c.scope, c.project⟩

theorem lookup?_empty (key : Text) : ({} : Registry).lookup? key = none := by
  simp [lookup?]

theorem lookup?_insert (r : Registry) (k key : Text) (owner : Owner) :
    (r.insert k owner).lookup? key = if k = key then some owner else r.lookup? key := by
  simp only [lookup?, insert, Std.HashMap.getElem?_insert, beq_iff_eq]

theorem lookup?_insertAll (keys : List Text) (owner : Owner) (r : Registry) (key : Text) :
    (keys.foldl (fun r k => r.insert k owner) r).lookup? key = if key ∈ keys then some owner else r.lookup? key := by
  induction keys generalizing r with
  | nil => simp
  | cons k keys ih =>
    rw [List.foldl_cons, ih, lookup?_insert]
    by_cases hk : key ∈ keys
    · simp [hk]
    · by_cases he : k = key
      · simp [he]
      · simp [hk, he, Ne.symm he]

theorem lookup?_register (r : Registry) (c : ClassId) (key : Text) :
    (r.register c).lookup? key = if key ∈ keysOf c then some (ownerOf c) else r.lookup? key :=
  lookup?_insertAll (keysOf c) (ownerOf c) r key

theorem ofClasses_snoc (cs : List ClassId) (c : ClassId) : ofClasses (cs ++ [c]) = (ofClasses cs).register c := by
  simp [ofClasses, List.foldl_append]

/-- **The last registration wins.** A key holds the owner of the last class with that key. -/
theorem lookup?_ofClasses (cs : List ClassId) (key : Text) :
    (ofClasses cs).lookup? key = ((cs.filter fun c => key ∈ keysOf c).getLast?).map ownerOf := by
  induction cs using List.reverseRecOn with
  | nil => exact lookup?_empty key
  | append_singleton cs c ih =>
    rw [ofClasses_snoc, lookup?_register, ih, List.filter_append]
    by_cases hk : key ∈ keysOf c
    · simp [hk]
    · simp [hk]

/-! ## Keys of classes whose names hold no point -/

/-- the last class of that name in that scope -/
def lastIn (cs : List ClassId) (scope name : Text) : Option ClassId :=
  (cs.filter fun c => c.scope = scope ∧ c.name = name).getLast?

/-- the last class of that name in any scope -/
def lastNamed (cs : List ClassId) (name : Text) : Option ClassId := (cs.filter fun c => c.name = name).getLast?

theorem eq_of_lastIn {cs : List ClassId} {scope name : Text} {c : ClassId} (h : lastIn cs scope name = some c) :
    c ∈ cs ∧ c.scope = scope ∧ c.name = name := by
  have hm := List.mem_filter.1 (List.mem_of_getLast? h)
  exact ⟨hm.1, by simpa using hm.2⟩

theorem eq_of_lastNamed {cs : List ClassId} {name : Text} {c : ClassId} (h : lastNamed cs name = some c) :
    c ∈ cs ∧ c.name = name := by
  have hm := List.mem_filter.1 (List.mem_of_getLast? h)
  exact ⟨hm.1, by simpa using hm.2⟩

theorem lastIn_eq_none {cs : List ClassId} {scope name : Text} (h : ∀ c ∈ cs, c.name = name → c.scope ≠ scope) :
    lastIn cs scope name = none := by
  rw [lastIn, List.getLast?_eq_none_iff, List.filter_eq_nil_iff]
  intro c hc hk
  obtain ⟨hs, hn⟩ := of_decide_eq_true hk
  exact h c hc hn hs

theorem lastNamed_eq_none_iff {cs : List ClassId} {name : Text} :
    lastNamed cs name = none ↔ ∀ c ∈ cs, c.name ≠ name := by
  simp [lastNamed]

theorem lastNamed_append (cs ds : List ClassId) (name : Text) :
    lastNamed (cs ++ ds) name = (lastNamed ds name).or (lastNamed cs name) := by
  rw [lastNamed, lastNamed, lastNamed, List.filter_append, List.getLast?_append]

/-- the last class of that name is the one given, unless a later one has the name too -/
theorem lastNamed_of_split (before after : List ClassId) (c : ClassId) :
    lastNamed (before ++ c :: after) c.name = (lastNamed after c.name).or (some c) := by
  have hc : lastNamed (before ++ [c]) c.name = some c := by
    rw [lastNamed, List.filter_append, List.filter_cons_of_pos (by simp), List.filter_nil, List.getLast?_concat]
  rw [List.append_cons, lastNamed_append, hc]

/-- a qualified key belongs to one name in one scope, which is not empty -/
theorem qualified_mem_keysOf {c : ClassId} {scope name : Text} (hc : '.' ∉ c.name) (hn : '.' ∉ name) :
    scope ++ '.' :: name ∈ keysOf c ↔ scope ≠ [] ∧ c.scope = scope ∧ c.name = name := by
  have hbare : scope ++ '.' :: name ≠ c.name := fun he => hc (he ▸ by simp)
  unfold keysOf qualify
  by_cases hs : c.scope = []
  · simp only [hs, List.isEmpty_nil, ite_true, List.mem_singleton, hbare, false_iff]
    rintro ⟨hne, rfl, -⟩
    exact hne rfl
  · have he : c.scope.isEmpty = false := by simpa using hs
    simp only [he, Bool.false_eq_true, ite_false, List.mem_cons, List.not_mem_nil, or_false, hbare]
    rw [Text.append_cons_inj hn hc]
    constructor
    · rintro ⟨rfl, rfl⟩
      exact ⟨hs, rfl, rfl⟩
    · rintro ⟨-, rfl, rfl⟩
      exact ⟨rfl, rfl⟩

/-- a key without a point belongs to a name -/
theorem bare_mem_keysOf {c : ClassId} {name : Text} (hn : '.' ∉ name) : name ∈ keysOf c ↔ c.name = name := by
  unfold keysOf qualify
  by_cases hs : c.scope = []
  · simp only [hs, List.isEmpty_nil, ite_true, List.mem_singleton]
    exact eq_comm
  · have he : c.scope.isEmpty = false := by simpa using hs
    have hq : name ≠ c.scope ++ '.' :: c.name := fun he => hn (he ▸ by simp)
    simp only [he, Bool.false_eq_true, ite_false, List.mem_cons, List.not_mem_nil, or_false, hq, false_or]
    exact eq_comm

theorem lookup?_qualified {cs : List ClassId} (h : ∀ c ∈ cs, '.' ∉ c.name) {scope name : Text} (hn : '.' ∉ name) :
    (ofClasses cs).lookup? (scope ++ '.' :: name) =
      if scope = [] then none else (lastIn cs scope name).map ownerOf := by
  rw [lookup?_ofClasses]
  by_cases hs : scope = []
  · have hf : (cs.filter fun c => scope ++ '.' :: name ∈ keysOf c) = [] := by
      refine List.filter_eq_nil_iff.2 fun c hc hk => ?_
      exact ((qualified_mem_keysOf (h c hc) hn).1 (by simpa using hk)).1 hs
    rw [hf, if_pos hs]
    rfl
  · have hf : (cs.filter fun c => scope ++ '.' :: name ∈ keysOf c) =
        cs.filter fun c => c.scope = scope ∧ c.name = name := by
      refine List.filter_congr fun c hc => ?_
      simp [qualified_mem_keysOf (h c hc) hn, hs]
    rw [hf, if_neg hs, lastIn]

theorem lookup?_bare (cs : List ClassId) {name : Text} (hn : '.' ∉ name) :
    (ofClasses cs).lookup? name = (lastNamed cs name).map ownerOf := by
  have hf : (cs.filter fun c => name ∈ keysOf c) = cs.filter fun c => c.name = name :=
    List.filter_congr fun c _ => by simp [bare_mem_keysOf hn]
  rw [lookup?_ofClasses, hf, lastNamed]

end ClassAtlas.Registry
