/-
Bases as they are written.

A base is a named type with blanks around it, and it may pass arguments to its constructor in parentheses. What a list
of bases holds between two commas is read as a type. The arguments start at the first parenthesis outside angle
brackets, and whatever follows that parenthesis does not matter (`parse_piece`).
-/
import ClassAtlas.Outline.Header
import ClassAtlas.Proofs.TypeTree.RoundTrip

namespace ClassAtlas.Signature

open Nesting (Bracket Delimiters Shielded)
open TypeTree (Mark marksText)

def isNamed : TypeTree.Shape → Bool
  | .tuple _ => false
  | _ => true

/-- an optional list in brackets -/
def groupText (b : Bracket) (list : Option Text) : Text :=
  (list.map fun inner => b.opening :: inner ++ [b.closing]).getD []

/-- the angle and round brackets of the list, if there is one, are paired -/
def Paired (list : Option Text) : Prop := ∀ inner ∈ list, Shielded Delimiters.grouping (fun _ => True) inner

theorem paired_none : Paired none := fun inner h => absurd h (Option.not_mem_none inner)

theorem shielded_groupText {p : Char → Prop} {b : Bracket} (hb : .bracket b ∈ Delimiters.grouping) (hp : p b.opening)
    {list : Option Text} (h : Paired list) : Shielded Delimiters.grouping p (groupText b list) := by
  cases list with
  | none => exact .nil
  | some inner => exact .group hb hp (h inner rfl)

theorem not_mem_groupText {b : Bracket} {c : Char} (ho : c ≠ b.opening) (hc : c ≠ b.closing) {list : Option Text}
    (h : ∀ inner ∈ list, c ∉ inner) : c ∉ groupText b list := by
  cases list with
  | none => exact List.not_mem_nil
  | some inner =>
    have hinner := h inner rfl
    simp [groupText, ho, hc, hinner]

/-- a base with the blanks around it, without the bracket that ends the header -/
structure Base where
  before : Text.Blanks
  shape : TypeTree.Shape
  named : isNamed shape = true
  marks : List Mark
  arguments : Option Text
  after : Text.Blanks
  unbraced : '{' ∉ shape.render ∧ ∀ inner ∈ arguments, '{' ∉ inner

namespace Base

variable (b : Base)

def typeText : Text := b.shape.render ++ marksText b.marks

/-- the base up to the end of its type -/
def opening : Text := b.before.1 ++ b.typeText

/-- what stands behind the type -/
def tail : Text := groupText .round b.arguments ++ b.after.1

def text : Text := b.opening ++ b.tail

def tree : TypeTree := b.shape.tree (marksText b.marks)

theorem curly_not_mem_text : '{' ∉ b.text := by
  have hblanks : ∀ blanks : Text.Blanks, '{' ∉ blanks.1 := fun blanks hc => absurd (blanks.2 _ hc) (by decide)
  have hmarks : '{' ∉ marksText b.marks := fun hc => absurd (TypeTree.mem_marksText hc) (by decide)
  have hgroup : '{' ∉ groupText .round b.arguments := not_mem_groupText (by decide) (by decide) b.unbraced.2
  simp [text, opening, typeText, tail, hblanks, hmarks, hgroup, b.unbraced.1]

theorem solid_typeText : Text.StartsSolid b.typeText ∧ Text.EndsSolid b.typeText :=
  ⟨b.shape.startsSolid.append _, b.shape.endsSolid_marks _⟩

/-! ## The type -/

/-- outside its angle brackets the type has no parenthesis -/
theorem shielded_typeText : Shielded Delimiters.angle (· ≠ '(') b.typeText := by
  have hname : ∀ name : TypeTree.Name, Shielded Delimiters.angle (· ≠ '(') name.1 := by
    intro name
    refine .of_forall fun c hc => ?_
    have hpart := name.2.2 c hc
    have hplain := ((TypeTree.sees_grouping (fun _ _ _ => trivial) name.1).name c hc hpart).1
    exact ⟨hplain.mono (by decide), fun he => absurd (he ▸ hpart) (by decide)⟩
  have hmarks : Shielded Delimiters.angle (· ≠ '(') (marksText b.marks) :=
    TypeTree.shielded_marksText (by decide) (Or.inr (by decide))
  refine Shielded.append ?_ hmarks
  cases hshape : b.shape with
  | plain name => exact hname name
  | generic name arguments =>
    have hinner := arguments.shielded (TypeTree.sees_grouping (fun _ _ _ => trivial) arguments.render)
    have hgroup : Shielded Delimiters.angle (· ≠ '(') ('<' :: arguments.render ++ ['>']) :=
      .group (b := .angle) (by decide) (by decide) (hinner.weaken (by decide) fun _ _ => trivial)
    have hall := (hname name).append hgroup
    simpa [TypeTree.Shape.render] using hall
  | tuple elements =>
    have hnamed := b.named
    rw [hshape] at hnamed
    contradiction

theorem parse_typeText : TypeTree.parse b.typeText = b.tree := TypeTree.parse_shape b.shape b.marks

end Base

/-! ## What is read between two commas -/

/-- what may stand behind the type: blanks, or arguments with anything behind their parenthesis -/
inductive IsTail : Text → Prop where
  | blanks (after : Text.Blanks) : IsTail after.1
  | arguments (rest : Text) : IsTail ('(' :: rest)

namespace Base

variable (b : Base)

theorem isTail_tail : IsTail b.tail := by
  unfold tail
  cases b.arguments with
  | none => exact .blanks b.after
  | some inner => exact .arguments _

theorem trim_blanks (after : Text.Blanks) : Text.trim (b.opening ++ after.1) = b.typeText :=
  Text.trim_append b.before.2 b.solid_typeText.1 b.solid_typeText.2 after.2

theorem trim_arguments (rest : Text) :
    Text.trim (b.opening ++ '(' :: rest) = b.typeText ++ '(' :: Text.trimEnd rest := by
  have hstart : Text.StartsSolid (b.typeText ++ ['('] ++ rest) := (b.solid_typeText.1.append _).append _
  have hend : Text.EndsSolid (b.typeText ++ ['(']) := ⟨b.typeText, '(', rfl, by decide⟩
  have htext : b.opening ++ '(' :: rest = b.before.1 ++ (b.typeText ++ ['('] ++ rest) := by simp [opening]
  rw [htext, Text.trim, Text.trimStart_append b.before.2 hstart, Text.trimEnd_append_left hend, List.append_assoc]
  rfl

/-- **of a base its type is read** -/
theorem parse_piece {tail : Text} (ht : IsTail tail) : Text.trim (b.opening ++ tail) ≠ [] ∧
    TypeTree.parse (Outline.baseWithoutArguments (Text.trim (b.opening ++ tail))) = b.tree := by
  cases ht with
  | blanks after =>
    rw [trim_blanks, Outline.baseWithoutArguments, Nesting.cut?_eq_none b.shielded_typeText]
    exact ⟨b.solid_typeText.1.ne_nil, b.parse_typeText⟩
  | arguments rest =>
    rw [trim_arguments, Outline.baseWithoutArguments, Nesting.cut?_append_cons b.shielded_typeText]
    have htrim : Text.trim b.typeText = b.typeText := Text.trim_eq_self b.solid_typeText.1 b.solid_typeText.2
    exact ⟨by simp, (congrArg TypeTree.parse htrim).trans b.parse_typeText⟩

end Base

end ClassAtlas.Signature
