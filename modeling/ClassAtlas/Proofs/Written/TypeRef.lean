/-
Written types where they are read.

A type of a member is read by a pattern, up to the blank before the name. The pattern takes the type as it was written,
and its tree is the one meant.
-/
import ClassAtlas.Outline.Member
import ClassAtlas.Proofs.Written.Texts

namespace ClassAtlas.Written

open Pattern (IsRun Stops stops_cons isNameChar isDottedChar isArgumentChar)
open TypeTree (SimpleMark simpleText)

/-! ## The text -/

namespace Nominal

theorem isTypeText (t : Nominal) : IsTypeText t.render := t.shape.isTypeText t.ordinary

theorem startsSolid (t : Nominal) : Text.StartsSolid t.render := t.shape.startsSolid

/-- what a scan from the left meets in the type -/
theorem cases (t : Nominal) :
    (IsRun isDottedChar t.render ∧ t.render.length ≤ 128) ∨
      ∃ name arguments, t.render = name ++ '<' :: (arguments ++ ['>']) ∧ IsRun isDottedChar name ∧ name.length ≤ 128 ∧
        (∀ c ∈ arguments, isArgumentChar c = true) ∧ arguments.length ≤ 256 := by
  obtain ⟨shape, hordinary, hfits⟩ := t
  cases shape with
  | plain name =>
    simp only [TypeTree.Shape.fits, decide_eq_true_eq] at hfits
    exact Or.inl ⟨isRun_of_isDotted hordinary, hfits⟩
  | generic name arguments =>
    simp only [TypeTree.Shape.isOrdinary, Bool.and_eq_true] at hordinary
    simp only [TypeTree.Shape.fits, Bool.and_eq_true, decide_eq_true_eq] at hfits
    refine Or.inr ⟨name.1, arguments.render, ?_, isRun_of_isDotted hordinary.1, hfits.1,
      (arguments.isTypeText hordinary.2).chars, hfits.2⟩
    simp [render, TypeTree.Shape.render]
  | tuple elements => simp [TypeTree.Shape.fits] at hfits

end Nominal

namespace TypeRef

theorem isTypeText (t : TypeRef) : IsTypeText t.render := isTypeText_marks t.toNominal.isTypeText t.mark.toList

theorem startsSolid (t : TypeRef) : Text.StartsSolid t.render := t.toNominal.startsSolid.append _

theorem endsSolid (t : TypeRef) : Text.EndsSolid t.render := t.shape.endsSolid_marks _

theorem trim_render (t : TypeRef) : Text.trim t.render = t.render := Text.trim_eq_self t.startsSolid t.endsSolid

theorem parse_typeRef (t : TypeRef) : TypeTree.parse t.render = t.tree := TypeTree.parse_shape t.shape _

end TypeRef

/-! ## Patterns -/

/-- the mark before a blank is taken whole -/
theorem first?_typeMarks (mark : Option SimpleMark) (rest : Text) :
    Pattern.typeMarks.first? (simpleText mark.toList ++ ' ' :: rest) =
      some ⟨(), simpleText mark.toList, ' ' :: rest⟩ := by
  cases mark with
  | none =>
    show (Pattern.typeMarks (' ' :: rest)).head? = _
    rw [Pattern.typeMarks_of_ne (by decide) (by decide)]
    rfl
  | some m =>
    obtain ⟨m, hm⟩ := m
    cases m with
    | nullable => exact Pattern.first?_typeMarks_nullable (by decide) (by decide) rest
    | rank commas =>
      obtain rfl : commas = 0 := by simpa [TypeTree.Mark.isSimple] using hm
      exact Pattern.first?_typeMarks_array (by decide) (by decide) rest

section Declaration

variable {d rest : Text} {c : Char} (hd : IsRun isNameChar d) (hc : isArgumentChar c = false)
include hd

/-- neither points nor type arguments come after the name of a type -/
theorem nothing_after_name (mark : Option SimpleMark) (tail : Text) :
    Stops isDottedChar (simpleText mark.toList ++ ' ' :: (d ++ tail)) ∧
      Pattern.typeArguments (simpleText mark.toList ++ ' ' :: (d ++ tail)) = [] := by
  cases hm : simpleText mark.toList with
  | nil =>
    obtain ⟨e, more, rfl, he, -⟩ := hd
    have hsolid := Text.not_isBlank_of_isNameChar (Pattern.isNameChar_of_isNameStart he)
    have hangle : e ≠ '<' := fun h => absurd (h ▸ he) (by decide)
    have hnone : Pattern.typeArguments ([' '] ++ e :: (more ++ tail)) = [] :=
      Pattern.typeArguments_eq_nil (by decide) hsolid hangle
    exact ⟨stops_cons (by decide) _, hnone⟩
  | cons m more =>
    have hmark := TypeTree.mem_marksText (c := m) (hm ▸ List.mem_cons_self)
    have hnone : Pattern.typeArguments ([] ++ m :: (more ++ ' ' :: (d ++ tail))) = [] := by
      refine Pattern.typeArguments_eq_nil (by simp) ?_ ?_ <;> rcases hmark with rfl | rfl | rfl | rfl <;> decide
    refine ⟨stops_cons ?_ _, hnone⟩
    rcases hmark with rfl | rfl | rfl | rfl <;> decide

theorem angle_not_mem (mark : Option SimpleMark) : '>' ∉ simpleText mark.toList ++ ' ' :: d := by
  simp only [List.mem_append, List.mem_cons]
  rintro (h | h | h)
  · exact absurd (TypeTree.mem_marksText h) (by decide)
  · exact absurd h (by decide)
  · obtain ⟨e, more, rfl, he, hmore⟩ := hd
    rcases List.mem_cons.1 h with h | h
    · exact absurd (h ▸ he) (by decide)
    · exact absurd (hmore _ h) (by decide)

include hc

theorem first?_namedType (t : Nominal) (mark : Option SimpleMark) :
    Pattern.namedType.first? (t.render ++ (simpleText mark.toList ++ ' ' :: (d ++ c :: rest))) =
      some ⟨(), t.render, simpleText mark.toList ++ ' ' :: (d ++ c :: rest)⟩ := by
  rcases t.cases with ⟨hrun, hlen⟩ | ⟨name, arguments, htext, hname, hlen, hchars, harguments⟩
  · obtain ⟨hstops, hnone⟩ := nothing_after_name hd mark (c :: rest)
    show (Pattern.namedType _).head? = _
    rw [Pattern.namedType_append hrun hlen hstops hnone]
    rfl
  · have hafter : simpleText mark.toList ++ ' ' :: (d ++ c :: rest) =
        simpleText mark.toList ++ ' ' :: d ++ c :: rest := by
      simp
    have hall : t.render ++ (simpleText mark.toList ++ ' ' :: (d ++ c :: rest)) =
        name ++ '<' :: (arguments ++ '>' :: (simpleText mark.toList ++ ' ' :: d ++ c :: rest)) := by
      simp [htext]
    rw [hall, hafter, htext]
    exact Pattern.first?_namedType_arguments hname hlen hchars harguments (angle_not_mem hd mark) hc

theorem first?_typeExpression (t : TypeRef) :
    Pattern.typeExpression.first? (t.render ++ ' ' :: (d ++ c :: rest)) =
      some ⟨(), t.render, ' ' :: (d ++ c :: rest)⟩ := by
  rw [TypeRef.render, List.append_assoc, Pattern.typeExpression_eq]
  exact Pattern.first?_bind (Pattern.first?_or (first?_namedType hd hc t.toNominal t.mark) _)
    (first?_typeMarks t.mark _)

/-- **a type and a name are read as they are written** -/
theorem first?_typeAndName (t : TypeRef) (hlen : d.length ≤ 128) :
    Outline.typeAndName.first? (t.render ++ ' ' :: (d ++ c :: rest)) =
      some ⟨(t.render, d), t.render ++ ' ' :: d, c :: rest⟩ := by
  have hname := (Pattern.of_not_isArgumentChar hc).2.1
  have hidentifier : Pattern.identifier.first? (d ++ c :: rest) = some ⟨(), d, c :: rest⟩ := by
    rw [Pattern.first?, Pattern.identifier_append hd hlen (stops_cons hname rest)]
    rfl
  have hblank : Pattern.someBlanks.first? (' ' :: (d ++ c :: rest)) = some ⟨(), [' '], d ++ c :: rest⟩ := by
    rw [Pattern.first?, Pattern.someBlanks_space (hd.stops_isBlank _)]
    rfl
  have hall : Outline.typeAndName.first? (t.render ++ ' ' :: (d ++ c :: rest)) =
      some ⟨(Text.trim t.render, d), t.render ++ ([' '] ++ (d ++ [])), c :: rest⟩ :=
    Pattern.first?_bind (Pattern.first?_capture (first?_typeExpression hd hc t)) (Pattern.first?_bind hblank
      (Pattern.first?_bind (Pattern.first?_capture hidentifier) (Pattern.first?_pure _ _)))
  rw [hall, t.trim_render, List.append_nil]
  rfl

end Declaration

end ClassAtlas.Written
