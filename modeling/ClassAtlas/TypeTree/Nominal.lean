/-
The marks after a type, and the type without them.

A type may be followed by question marks and array ranks in any number. `withoutMarks` removes them, and `nominalName`
also removes the type arguments and the mark of the global scope: what is left is the name under which a class may be
known.
-/
import ClassAtlas.Text.Basic

namespace ClassAtlas.TypeTree

theorem length_lt_of_splitFirst? {c : Char} {s before after : Text}
    (h : Text.splitFirst? c s = some (before, after)) : before.length < s.length ∧ after.length < s.length := by
  have hs := Text.splitFirst?_eq_some h
  subst hs
  simp only [List.length_append, List.length_cons]
  omega

/-- removes the marks from a text that is written backwards -/
def dropMarks (backward : Text) : Text :=
  match _hb : backward.dropWhile Text.isBlank with
  | '?' :: rest => dropMarks rest
  | ']' :: rest =>
    match _hs : Text.splitFirst? '[' rest with
    | some (_, before) => dropMarks before
    | none => ']' :: rest
  | rest => rest
termination_by backward.length
decreasing_by
  · have := (List.dropWhile_suffix Text.isBlank (l := backward)).length_le
    rw [_hb] at this
    simp only [List.length_cons] at this
    omega
  · have h1 := (List.dropWhile_suffix Text.isBlank (l := backward)).length_le
    have h2 := (length_lt_of_splitFirst? _hs).2
    rw [_hb] at h1
    simp only [List.length_cons] at h1
    omega

/-- the type without the question marks, array ranks and blanks at its end -/
def withoutMarks (s : Text) : Text := (dropMarks s.reverse).reverse

theorem length_dropMarks_le (backward : Text) : (dropMarks backward).length ≤ backward.length := by
  fun_induction dropMarks backward with
  | case1 b rest hb ih =>
    have := (List.dropWhile_suffix Text.isBlank (l := b)).length_le
    rw [hb] at this
    simp only [List.length_cons] at this
    omega
  | case2 b rest hb skipped before hs ih =>
    have h1 := (List.dropWhile_suffix Text.isBlank (l := b)).length_le
    have h2 := (length_lt_of_splitFirst? hs).2
    rw [hb] at h1
    simp only [List.length_cons] at h1
    omega
  | case3 b rest hb hs =>
    have := (List.dropWhile_suffix Text.isBlank (l := b)).length_le
    rwa [hb] at this
  | case4 b h1 h2 => exact (List.dropWhile_suffix Text.isBlank (l := b)).length_le

theorem length_withoutMarks_le (s : Text) : (withoutMarks s).length ≤ s.length := by
  have := length_dropMarks_le s.reverse
  simpa [withoutMarks] using this

/-- the mark that a name starts at the global scope -/
def globalMark : Text := "global::"

def dropGlobalMark (s : Text) : Text := if globalMark.isPrefixOf s then s.drop globalMark.length else s

/-- the name of a type: trimmed, without the global mark, the type arguments and the marks after it -/
def nominalName (s : Text) : Text := withoutMarks ((dropGlobalMark (Text.trim s)).takeWhile (· != '<'))

end ClassAtlas.TypeTree
