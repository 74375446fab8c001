/-
Parameter lists.

Parameters are separated by commas outside all brackets and literals. The type of a parameter comes after its
attributes and modifiers and reaches to the first blank outside angle and round brackets.
-/
import ClassAtlas.TypeTree.Parse
import ClassAtlas.Vocabulary

namespace ClassAtlas.Outline

open Nesting (Delimiters)

/-- the text after the attributes that it starts with; none if one of them is not closed -/
def dropAttributes? (s : Text) : Option Text :=
  match s with
  | '[' :: rest =>
    match _h : Nesting.cut? Delimiters.box [']'] rest with
    | some (_, _ :: after) => dropAttributes? (Text.trimStart after)
    | _ => none
  | _ => some s
termination_by s.length
decreasing_by
  have h1 := congrArg List.length (Nesting.cut?_append _h)
  have h2 := Text.length_trimStart_le after
  simp only [List.length_append, List.length_cons] at h1 ⊢
  omega

/-- the text up to the first blank -/
def firstWord (s : Text) : Text := s.takeWhile (!Text.isBlank ·)

/-- the text without the parameter modifiers that it starts with -/
def dropModifiers (s : Text) : Text :=
  if _h : Vocabulary.isParameterWord (firstWord s) = true then
    dropModifiers (Text.trimStart (s.drop (firstWord s).length))
  else s
termination_by s.length
decreasing_by
  have h1 := Text.length_trimStart_le (s.drop (firstWord s).length)
  have h2 : 0 < (firstWord s).length := by
    refine List.length_pos_iff.2 fun he => ?_
    rw [he] at _h
    exact absurd _h (by decide)
  have h3 : (firstWord s).length ≤ s.length := (List.takeWhile_prefix _).length_le
  simp only [List.length_drop] at h1
  omega

/-- the text up to the first blank outside angle and round brackets -/
def leadingType (s : Text) : Text := ((Nesting.cutWhere? Delimiters.grouping Text.isBlank s).map Prod.fst).getD s

/-- the type of a parameter -/
def typeOfParameter? (parameter : Text) : Option Text := do
  let rest ← dropAttributes? (Text.trim parameter)
  let type := Text.trim (leadingType (dropModifiers rest))
  if type.isEmpty then none else some type

/-- the types of a list of parameters -/
def parameterTypes (list : Text) : List TypeTree :=
  ((Nesting.split Delimiters.all ',' list).filterMap typeOfParameter?).map TypeTree.parse

/-- the types of the parameters up to the closing parenthesis, or to the end of the line if it is not there -/
def parametersAfter (rest : Text) : List TypeTree :=
  parameterTypes (Nesting.before (Delimiters.grouping ++ Delimiters.literals) [')'] rest)

end ClassAtlas.Outline
