/-
How scans see a type expression.

A written expression is shielded for every scan that counts angle and round brackets: what stands outside them is names
and marks only (`Shape.shielded`). Where a scan counts fewer brackets, `Shielded.weaken` gives what is left of this.
-/
import ClassAtlas.Proofs.Nesting
import ClassAtlas.Proofs.TypeTree.Expression

namespace ClassAtlas.TypeTree

open Nesting (Delimiters Plain Shielded)

/-- what a scan must do with the characters of an expression, for those outside the brackets to have the property -/
structure Sees (counted : Delimiters) (p : Char → Prop) (text : Text) : Prop where
  angle : .bracket .angle ∈ counted
  round : .bracket .round ∈ counted
  opening : p '<' ∧ p '('
  name : ∀ c ∈ text, isNamePart c = true → Plain counted c ∧ p c
  mark : ∀ m : SimpleMark, Shielded counted p m.1.text
  separator : ∀ c, Text.isBlank c = true ∨ c = ',' → Plain counted c

namespace Sees

variable {counted : Delimiters} {p : Char → Prop} {text : Text}

/-- the same inside brackets, where nothing is asked of the characters -/
theorem inside (h : Sees counted p text) {inner : Text} (hi : inner ⊆ text) :
    Sees counted (fun _ => True) inner where
  angle := h.angle
  round := h.round
  opening := ⟨trivial, trivial⟩
  name := fun c hc hn => ⟨(h.name c (hi hc) hn).1, trivial⟩
  mark := fun m => (h.mark m).mono fun _ _ => trivial
  separator := h.separator

theorem subset (h : Sees counted p text) {part : Text} (hp : part ⊆ text) : Sees counted p part :=
  { h with name := fun c hc hn => h.name c (hp hc) hn }

theorem shielded_name (h : Sees counted p text) {name : Name} (hn : name.1 ⊆ text) : Shielded counted p name.1 :=
  .of_forall fun c hc => h.name c (hn hc) (name.2.2 c hc)

theorem shielded_marks (h : Sees counted p text) (marks : List SimpleMark) : Shielded counted p (simpleText marks) := by
  induction marks with
  | nil => exact .nil
  | cons m marks ih => exact .append (h.mark m) ih

theorem shielded_label (h : Sees counted p text) (hb : ∀ c, Text.isBlank c = true → p c) {label : Option Label}
    (hl : labelText label ⊆ text) : Shielded counted p (labelText label) := by
  cases label with
  | none => exact .nil
  | some l =>
    refine .append (Shielded.of_blanks hb l.gap) (h.shielded_name fun c hc => hl ?_)
    simp only [labelText, Label.text, Option.map_some, Option.getD_some, List.mem_append]
    exact Or.inr hc

end Sees

theorem Argument.shielded_of_core {counted : Delimiters} {p : Char → Prop} (hb : ∀ c, Text.isBlank c = true → p c)
    {argument : Argument} (hcore : Shielded counted p argument.core) : Shielded counted p argument.render := by
  obtain ⟨before, shape, marks, label, after⟩ := argument
  exact ((Shielded.of_blanks hb before).append hcore).append (Shielded.of_blanks hb after)

theorem Argument.core_subset (argument : Argument) : argument.core ⊆ argument.render := by
  obtain ⟨before, shape, marks, label, after⟩ := argument
  intro c hc
  simp only [Argument.core] at hc
  simp only [Argument.render, List.mem_append] at hc ⊢
  exact Or.inl (Or.inr hc)

mutual

theorem Shape.shielded {counted : Delimiters} {p : Char → Prop} (shape : Shape) (h : Sees counted p shape.render) :
    Shielded counted p shape.render := by
  cases shape with
  | plain name => exact h.shielded_name (List.Subset.refl _)
  | generic name arguments =>
    have hname : name.1 ⊆ (Shape.generic name arguments).render := by simp [Shape.render]
    have hargs : arguments.render ⊆ (Shape.generic name arguments).render := by
      intro c hc
      simp [Shape.render, hc]
    have hgroup : Shielded counted p ('<' :: arguments.render ++ ['>']) :=
      .group (b := .angle) h.angle h.opening.1 (arguments.shielded (h.inside hargs))
    simpa [Shape.render] using (h.shielded_name hname).append hgroup
  | tuple elements =>
    have hargs : elements.render ⊆ (Shape.tuple elements).render := by
      intro c hc
      simp [Shape.render, hc]
    exact .group (b := .round) h.round h.opening.2 (elements.shielded (h.inside hargs))

theorem Argument.shielded_core {counted : Delimiters} {p : Char → Prop} (argument : Argument)
    (h : Sees counted p argument.core) (hb : ∀ c, Text.isBlank c = true → p c) : Shielded counted p argument.core := by
  cases argument with
  | mk before shape marks label after =>
    have hshape : shape.render ⊆ (Argument.mk before shape marks label after).core := by
      intro c hc
      simp [Argument.core, hc]
    have hlabel : labelText label ⊆ (Argument.mk before shape marks label after).core := by simp [Argument.core]
    exact ((shape.shielded (h.subset hshape)).append (h.shielded_marks marks)).append (h.shielded_label hb hlabel)

theorem Arguments.shielded {counted : Delimiters} (arguments : Arguments)
    (h : Sees counted (fun _ => True) arguments.render) : Shielded counted (fun _ => True) arguments.render := by
  cases arguments with
  | one argument =>
    have hcore := argument.shielded_core (h.subset argument.core_subset) fun _ _ => trivial
    exact Argument.shielded_of_core (fun _ _ => trivial) hcore
  | more argument others =>
    have hfirst : argument.core ⊆ (Arguments.more argument others).render := by
      intro c hc
      simp [Arguments.render, argument.core_subset hc]
    have hcore := argument.shielded_core (h.subset hfirst) fun _ _ => trivial
    have hothers : others.render ⊆ (Arguments.more argument others).render := by
      intro c hc
      simp [Arguments.render, hc]
    have hcomma : Shielded counted (fun _ => True) [','] := .char (h.separator ',' (Or.inr rfl)) trivial
    have htail := hcomma.append (others.shielded (h.subset hothers))
    exact (Argument.shielded_of_core (fun _ _ => trivial) hcore).append htail

end

/-! ## Marks -/

/-- the commas of a rank stand inside its brackets, for a scan that counts these -/
theorem shielded_mark {counted : Delimiters} {p : Char → Prop} (hp : p '?' ∧ p '[' ∧ p ']') {m : Mark}
    (hc : m.isSimple = true ∨ .bracket .box ∈ counted ∨ p ',') : Shielded counted p m.text := by
  cases m with
  | nullable =>
    refine .char (Nesting.plain_of_ne (fun q _ => ?_) fun b _ => ?_) hp.1
    · cases q <;> decide
    · cases b <;> decide
  | rank commas =>
    by_cases hbox : .bracket .box ∈ counted
    · refine .group (b := .box) hbox hp.2.1 (.of_forall fun c hcomma => ?_)
      exact List.eq_of_mem_replicate hcomma ▸ ⟨Nesting.plain_comma counted, trivial⟩
    · obtain ⟨hopen, hclose⟩ := Nesting.plain_bracket hbox
      have hcommas : Shielded counted p (List.replicate commas ',') := by
        refine .of_forall fun c hcomma => ?_
        rw [List.eq_of_mem_replicate hcomma]
        refine ⟨Nesting.plain_comma counted, ?_⟩
        rcases hc with hsimple | hmem | hcomma'
        · obtain rfl : commas = 0 := by simpa [Mark.isSimple] using hsimple
          exact absurd hcomma List.not_mem_nil
        · exact absurd hmem hbox
        · exact hcomma'
      exact (Shielded.char hopen hp.2.1).append (hcommas.append (.char hclose hp.2.2))

theorem shielded_marksText {counted : Delimiters} {p : Char → Prop} (hp : p '?' ∧ p '[' ∧ p ']') {marks : List Mark}
    (hc : (∀ m ∈ marks, m.isSimple = true) ∨ p ',') : Shielded counted p (marksText marks) := by
  induction marks with
  | nil => exact .nil
  | cons m marks ih =>
    rcases hc with hsimple | hcomma
    · obtain ⟨hm, hothers⟩ := List.forall_mem_cons.1 hsimple
      exact (shielded_mark hp (Or.inl hm)).append (ih (Or.inl hothers))
    · exact (shielded_mark hp (Or.inr (Or.inr hcomma))).append (ih (Or.inr hcomma))

/-! ## The scans of the reader -/

theorem plain_grouping {c : Char} (h : c ≠ '<' ∧ c ≠ '>' ∧ c ≠ '(' ∧ c ≠ ')') : Plain Delimiters.grouping c := by
  obtain ⟨h1, h2, h3, h4⟩ := h
  refine Nesting.plain_of_ne (fun q hq => ?_) fun b hb => ?_
  · cases q <;> exact absurd hq (by decide)
  · cases b with
    | angle => exact ⟨h1, h2⟩
    | round => exact ⟨h3, h4⟩
    | box => exact absurd hb (by decide)
    | curly => exact absurd hb (by decide)

/-- outside angle and round brackets an expression has no commas and no blanks -/
theorem sees_grouping {p : Char → Prop} (hp : ∀ c, c ≠ ',' → Text.isBlank c = false → p c) (text : Text) :
    Sees Delimiters.grouping p text where
  angle := by decide
  round := by decide
  opening := ⟨hp _ (by decide) (by decide), hp _ (by decide) (by decide)⟩
  name := by
    intro c _ hc
    simp only [isNamePart, Bool.not_eq_true', Bool.or_eq_false_iff, beq_eq_false_iff_ne] at hc
    exact ⟨plain_grouping (by tauto), hp c (by tauto) (by tauto)⟩
  mark := fun m => shielded_mark ⟨hp _ (by decide) (by decide), hp _ (by decide) (by decide),
    hp _ (by decide) (by decide)⟩ (Or.inl m.2)
  separator := by
    rintro c (hc | rfl)
    · exact Nesting.plain_of_isBlank _ hc
    · exact Nesting.plain_comma _

end ClassAtlas.TypeTree
