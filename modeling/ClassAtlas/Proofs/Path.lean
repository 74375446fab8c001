/-
Paths of the entries of a directory.

The name of an entry is not empty, holds no slash and is neither of the two names that stand for directories
(`IsEntryName`). The path of an entry has one component more than that of its directory, however the directory is
written, and this component is the name (`components_child`). So the places below a directory can be told apart by
their paths, and their order is that of the names.

The directories above a path are its components without some of the last ones, the nearest first
(`findSome?_directoriesAbove`).
-/
import ClassAtlas.Proofs.Text
import ClassAtlas.Path

namespace ClassAtlas.Path

/-- a name that an entry of a directory can have -/
structure IsEntryName (name : Text) : Prop where
  ne_nil : name ≠ []
  slash : '/' ∉ name
  ne_dot : name ≠ dot
  ne_dotDot : name ≠ dotDot

/-! ## Segments -/

theorem pieces_slash (s : Text) : pieces ('/' :: s) = [] :: pieces s := rfl

theorem pieces_cons {c : Char} (h : c ≠ '/') (s : Text) : pieces (c :: s) = Text.consFirst c (pieces s) := by
  simp [pieces, h]

theorem exists_pieces (s : Text) : ∃ piece rest, pieces s = piece :: rest := by
  cases s with
  | nil => exact ⟨[], [], rfl⟩
  | cons c s =>
    by_cases hc : c = '/'
    · subst hc
      exact ⟨[], pieces s, pieces_slash s⟩
    · rw [pieces_cons hc]
      cases pieces s with
      | nil => exact ⟨[c], [], rfl⟩
      | cons piece rest => exact ⟨c :: piece, rest, rfl⟩

theorem pieces_append_cons (a b : Text) : pieces (a ++ '/' :: b) = pieces a ++ pieces b := by
  induction a with
  | nil => rfl
  | cons c a ih =>
    by_cases hc : c = '/'
    · subst hc
      rw [List.cons_append, pieces_slash, pieces_slash, ih, List.cons_append]
    · obtain ⟨piece, rest, hpieces⟩ := exists_pieces a
      rw [List.cons_append, pieces_cons hc, pieces_cons hc, ih, hpieces]
      rfl

theorem not_mem_pieces {s piece : Text} (h : piece ∈ pieces s) : '/' ∉ piece := by
  induction s generalizing piece with
  | nil =>
    obtain rfl := List.mem_singleton.1 h
    exact List.not_mem_nil
  | cons c s ih =>
    by_cases hc : c = '/'
    · subst hc
      rcases List.mem_cons.1 h with rfl | h
      · exact List.not_mem_nil
      · exact ih h
    · obtain ⟨first, rest, hpieces⟩ := exists_pieces s
      rw [pieces_cons hc, hpieces] at h
      rcases List.mem_cons.1 h with rfl | h
      · have hfirst : '/' ∉ first := ih (hpieces ▸ List.mem_cons_self)
        simp [Ne.symm hc, hfirst]
      · exact ih (hpieces ▸ List.mem_cons_of_mem _ h)

theorem pieces_of_not_mem {s : Text} (h : '/' ∉ s) : pieces s = [s] := by
  induction s with
  | nil => rfl
  | cons c s ih =>
    obtain ⟨hc, hs⟩ := not_or.1 (mt List.mem_cons.2 h)
    rw [pieces_cons (Ne.symm hc), ih hs]
    rfl

section Child

variable (p : Path) {name : Text} (h : IsEntryName name)

include h

theorem segments_child : (p.child name).segments = p.segments ++ [name] := by
  have hname : (pieces name).filter (fun s => !s.isEmpty) = [name] := by
    rw [pieces_of_not_mem h.slash]
    simp [h.ne_nil]
  by_cases hempty : p.text = []
  · have htext : (p.child name).text = name := by simp [child, hempty]
    rw [segments, htext, hname, segments, hempty]
    rfl
  · by_cases hslash : p.endsWithSlash = true
    · -- the slash that the directory ends with stands before the name
      obtain ⟨s, hs⟩ := List.getLast?_eq_some_iff.1 (beq_iff_eq.1 hslash)
      have htext : (p.child name).text = s ++ '/' :: name := by simp [child, hslash, hs]
      rw [segments, htext, pieces_append_cons, List.filter_append, hname, segments, hs, pieces_append_cons,
        List.filter_append]
      simp [pieces]
    · have htext : (p.child name).text = p.text ++ '/' :: name := by simp [child, hslash, hempty]
      rw [segments, htext, pieces_append_cons, List.filter_append, hname, segments]

theorem isAbsolute_child : (p.child name).isAbsolute = p.isAbsolute := by
  by_cases hempty : p.text = []
  · have hhead : name.head? ≠ some '/' := fun he => h.slash (List.mem_of_head? he)
    simp [isAbsolute, child, hempty, hhead]
  · obtain ⟨c, s, hs⟩ := List.exists_cons_of_ne_nil hempty
    unfold child
    split <;> simp [isAbsolute, hs]

/-- the path of an entry has the components of its directory and then its name -/
theorem components_child : (p.child name).components = p.components ++ [.name name] := by
  have hname : component? name = some (.name name) := by simp [component?, h.ne_dot, h.ne_dotDot]
  have hstart : (p.segments ++ [name]).head? = some dot ↔ p.segments.head? = some dot := by
    cases p.segments with
    | nil => simp [h.ne_dot]
    | cons segment segments => simp
  simp only [components, segments_child p h, isAbsolute_child p h, hstart, List.filterMap_append, List.append_assoc,
    List.filterMap_cons, hname, List.filterMap_nil]

end Child

/-! ## Places below a directory -/

/-- the path of a place below a directory -/
def descend (p : Path) (place : List Text) : Path := place.foldl child p

theorem descend_cons (p : Path) (name : Text) (place : List Text) :
    p.descend (name :: place) = (p.child name).descend place := rfl

theorem components_descend (p : Path) {place : List Text} (h : ∀ name ∈ place, IsEntryName name) :
    (p.descend place).components = p.components ++ place.map .name := by
  induction place generalizing p with
  | nil => simp [descend]
  | cons name place ih =>
    obtain ⟨hname, hplace⟩ := List.forall_mem_cons.1 h
    rw [descend_cons, ih _ hplace, components_child p hname]
    simp

/-! ## Directories above a path -/

theorem mem_directoriesAbove {p : Path} {directory : List Component} :
    directory ∈ p.directoriesAbove ↔ directory <+: p.components ∧ directory.length < p.components.length := by
  simp only [directoriesAbove, List.mem_map, List.mem_reverse, List.mem_range]
  constructor
  · rintro ⟨n, hn, rfl⟩
    exact ⟨List.take_prefix n _, by rw [List.length_take]; omega⟩
  · rintro ⟨hbelow, hlength⟩
    exact ⟨directory.length, hlength, (List.prefix_iff_eq_take.1 hbelow).symm⟩

theorem pairwise_directoriesAbove (p : Path) : p.directoriesAbove.Pairwise fun a b => b.length < a.length := by
  simp only [directoriesAbove, List.pairwise_map, List.pairwise_reverse]
  apply List.pairwise_lt_range.imp_of_mem
  intro i j hi hj hlt
  have hi := List.mem_range.1 hi
  have hj := List.mem_range.1 hj
  rw [List.length_take, List.length_take]
  omega

/-- the first of the directories above that has something is the nearest one -/
theorem findSome?_directoriesAbove {α : Type} {p : Path} {f : List Component → Option α} {a : α}
    (h : p.directoriesAbove.findSome? f = some a) :
    ∃ directory ∈ p.directoriesAbove, f directory = some a ∧
      ∀ nearer ∈ p.directoriesAbove, directory.length < nearer.length → f nearer = none := by
  obtain ⟨before, directory, after, hsplit, ha, hbefore⟩ := List.findSome?_eq_some_iff.1 h
  have hpairwise := pairwise_directoriesAbove p
  rw [hsplit] at hpairwise ⊢
  refine ⟨directory, by simp, ha, fun nearer hnearer hlt => ?_⟩
  rcases List.mem_append.1 hnearer with hnearer | hnearer
  · exact hbefore nearer hnearer
  · rcases List.mem_cons.1 hnearer with rfl | hnearer
    · exact absurd hlt (Nat.lt_irrefl _)
    · have := List.rel_of_pairwise_cons (List.pairwise_append.1 hpairwise).2.1 hnearer
      omega

/-! ## Order -/

/-- the root comes first, then the directory itself, then the one above; names come last, in the order of texts -/
def Component.Precedes : Component → Component → Prop
  | .root, b => b ≠ .root
  | .current, .parent => True
  | .current, .name _ => True
  | .parent, .name _ => True
  | .name a, .name b => a < b
  | _, _ => False

instance : LT Component := ⟨Component.Precedes⟩

instance : Std.Asymm (· < · : Component → Component → Prop) where
  asymm a b hab hba := by
    cases a <;> cases b <;> first | exact hab | exact hba | exact hab rfl | exact List.lt_asymm hab hba

theorem append_name_lt {a b : Text} (h : a < b) (above x y : List Component) :
    above ++ .name a :: x < above ++ .name b :: y := by
  apply List.append_left_lt
  exact List.Lex.rel h

end ClassAtlas.Path
