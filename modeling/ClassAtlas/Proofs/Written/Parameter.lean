/-
Written parameter lists are read back, as lists of parameters of any type are.
-/
import ClassAtlas.Proofs.Signature.Parameter
import ClassAtlas.Proofs.Written.TypeRef

namespace ClassAtlas.Written

open Pattern (isArgumentChar)

/-- up to the first blank stands the whole type, or its name and the start of its arguments -/
theorem firstWord_typeRef (t : TypeRef) (tail : Text) :
    Outline.firstWord (t.render ++ ' ' :: tail) = t.render ∨ '<' ∈ Outline.firstWord (t.render ++ ' ' :: tail) := by
  rcases t.toNominal.cases with ⟨hrun, -⟩ | ⟨name, arguments, htext, hname, -⟩
  · have hsolid : ∀ c ∈ t.render, Text.isBlank c = false := by
      intro c hc
      rcases List.mem_append.1 hc with hc | hc
      · exact Text.not_isBlank_of_isRun hrun c hc
      · exact TypeTree.not_blank_of_mem_marksText hc
    exact Or.inl (Text.takeWhile_append_cons (fun c hc => by simp [hsolid c hc]) (by decide))
  · have hall : t.render ++ ' ' :: tail =
        name ++ '<' :: (arguments ++ '>' :: (TypeTree.simpleText t.mark.toList ++ ' ' :: tail)) := by
      simp [TypeRef.render, htext]
    have hsolid : ∀ c ∈ name, (!Text.isBlank c) = true := fun c hc => by simp [Text.not_isBlank_of_isRun hname c hc]
    rw [hall, Outline.firstWord, List.takeWhile_append_of_pos hsolid, List.takeWhile_cons_of_pos (by decide)]
    exact Or.inr (by simp)

/-! ## The list -/

theorem isSignatureChar_of_isArgumentChar {c : Char} (h : isArgumentChar c = true) :
    TypeTree.isSignatureChar c = true := by
  by_contra hc
  simp only [TypeTree.isSignatureChar, Bool.not_eq_true', Bool.not_eq_false, Bool.or_eq_true, beq_iff_eq] at hc
  rcases hc with ((((rfl | rfl) | rfl) | rfl) | rfl) | rfl <;> exact absurd h (by decide)

/-- a written parameter is one of a type that has a form of its own -/
def Parameter.signature (p : Parameter) : Signature.Parameter where
  type := ⟨p.type.shape, p.type.mark.toList.map Subtype.val⟩
  name := ⟨p.name.1, by
    obtain ⟨c, rest, hname, -⟩ := isRun_of_isIdentifier p.name.2.1
    refine ⟨by simp [hname], fun d hd => ?_⟩
    by_contra hpart
    have hchar := isNameChar_of_isIdentifier p.name.2.1 d hd
    simp only [TypeTree.isNamePart, Bool.not_eq_true', Bool.not_eq_false, Bool.or_eq_true, beq_iff_eq] at hpart
    rcases hpart with (((((((hb | rfl) | rfl) | rfl) | rfl) | rfl) | rfl) | rfl) | rfl
    · rw [Text.not_isBlank_of_isNameChar hchar] at hb
      contradiction
    all_goals exact absurd hchar (by decide)⟩
  chars := by
    intro c hc
    refine isSignatureChar_of_isArgumentChar ?_
    rcases List.mem_append.1 hc with hc | hc
    · exact p.type.isTypeText.chars c hc
    · exact (isTypeText_of_isIdentifier p.name.2.1).chars c hc
  unmodified := p.unmodified

theorem parametersText_signature (parameters : List Parameter) :
    Signature.parametersText (parameters.map Parameter.signature) = parametersText parameters := by
  rw [Signature.parametersText, List.map_map]
  rfl

/-- **a written parameter list is read back** -/
theorem parametersAfter_text (parameters : List Parameter) (rest : Text) :
    Outline.parametersAfter (parametersText parameters ++ ')' :: rest) = parameters.map fun p => p.type.tree := by
  rw [← parametersText_signature, Signature.parametersAfter_text, Signature.trees, List.map_map]
  rfl

end ClassAtlas.Written
