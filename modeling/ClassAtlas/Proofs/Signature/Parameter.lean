/-
Parameters of any type.

A parameter is a type expression, a blank and a name. Its text holds no curly bracket and no mark of a literal, so only
the brackets of its type are counted: the list is cut at the commas between the parameters, and each type reaches to the
blank before the name (`parametersAfter_text`). The type is not a modifier of parameters, since `scoped x` is a
parameter of type `x`.
-/
import ClassAtlas.Outline.Parameter
import ClassAtlas.Proofs.TypeTree.RoundTrip

namespace ClassAtlas.TypeTree

open Nesting (Delimiters Plain Shielded)

/-- a character of a signature: no curly bracket, no mark of a literal, and neither the start of a value nor the end of
a statement -/
def isSignatureChar (c : Char) : Bool :=
  !(c == '{' || c == '}' || c == '"' || c == '\'' || c == '=' || c == ';')

theorem plain_of_isNamePart (counted : Delimiters) {c : Char} (hn : isNamePart c = true)
    (hs : isSignatureChar c = true) : Plain counted c := by
  refine Nesting.plain_of_ne (fun q _ => ?_) fun b _ => ⟨?_, ?_⟩
  · cases q <;> exact fun he => absurd (he ▸ hs) (by decide)
  · cases b with
    | curly => exact fun he => absurd (he ▸ hs) (by decide)
    | _ => exact fun he => absurd (he ▸ hn) (by decide)
  · cases b with
    | curly => exact fun he => absurd (he ▸ hs) (by decide)
    | _ => exact fun he => absurd (he ▸ hn) (by decide)

section Scan

variable {counted : Delimiters} {p : Char → Prop} (hangle : .bracket .angle ∈ counted)
  (hround : .bracket .round ∈ counted) (hp : ∀ c, c ≠ ',' → c ≠ ')' → Text.isBlank c = false → p c)
include hangle hround hp

/-- a scan that counts angle and round brackets finds commas, blanks and closing parentheses inside them only -/
theorem sees_signature {text : Text} (h : ∀ c ∈ text, isSignatureChar c = true) : Sees counted p text where
  angle := hangle
  round := hround
  opening := ⟨hp _ (by decide) (by decide) (by decide), hp _ (by decide) (by decide) (by decide)⟩
  name := by
    intro c hc hn
    refine ⟨plain_of_isNamePart counted hn (h c hc), hp c ?_ ?_ (not_blank_of_isNamePart hn)⟩
    · exact fun he => absurd (he ▸ hn) (by decide)
    · exact fun he => absurd (he ▸ hn) (by decide)
  mark := fun m => shielded_mark ⟨hp _ (by decide) (by decide) (by decide), hp _ (by decide) (by decide) (by decide),
    hp _ (by decide) (by decide) (by decide)⟩ (Or.inl m.2)
  separator := by
    intro c hc
    rcases hc with hc | rfl
    · exact Nesting.plain_of_isBlank counted hc
    · exact Nesting.plain_comma counted

/-- also with ranks after it, if their brackets are counted or their commas do not matter -/
theorem Expression.shielded {e : Expression} (h : ∀ c ∈ e.render, isSignatureChar c = true)
    (hc : .bracket .box ∈ counted ∨ p ',') : Shielded counted p e.render := by
  have hshape : ∀ c ∈ e.shape.render, isSignatureChar c = true := fun c hm => h c (List.mem_append_left _ hm)
  refine (e.shape.shielded (sees_signature hangle hround hp hshape)).append ?_
  have hmark : ∀ m : Mark, Shielded counted p m.text := fun m =>
    shielded_mark ⟨hp _ (by decide) (by decide) (by decide), hp _ (by decide) (by decide) (by decide),
      hp _ (by decide) (by decide) (by decide)⟩ (Or.inr hc)
  induction e.marks with
  | nil => exact .nil
  | cons m marks ih => exact (hmark m).append ih

end Scan

/-- the first character is that of a name or opens a tuple -/
theorem Shape.exists_first (shape : Shape) : ∃ c rest, shape.render = c :: rest ∧ (isNamePart c = true ∨ c = '(') := by
  have hname : ∀ name : Name, ∃ c rest, name.1 = c :: rest ∧ isNamePart c = true := by
    intro name
    obtain ⟨c, rest, htext⟩ := List.exists_cons_of_ne_nil name.2.1
    exact ⟨c, rest, htext, name.2.2 c (htext ▸ List.mem_cons_self)⟩
  cases shape with
  | plain name =>
    obtain ⟨c, rest, htext, hc⟩ := hname name
    exact ⟨c, rest, htext, Or.inl hc⟩
  | generic name arguments =>
    obtain ⟨c, rest, htext, hc⟩ := hname name
    exact ⟨c, _, by rw [render, htext]; rfl, Or.inl hc⟩
  | tuple elements => exact ⟨'(', _, rfl, Or.inr rfl⟩

/-- up to the first blank stands the whole type, or its name and the start of its list -/
theorem firstWord_expression (e : Expression) {blank : Char} (hb : Text.isBlank blank = true) (tail : Text) :
    Outline.firstWord (e.render ++ blank :: tail) = e.render ∨ '<' ∈ Outline.firstWord (e.render ++ blank :: tail) ∨
      '(' ∈ Outline.firstWord (e.render ++ blank :: tail) := by
  obtain ⟨shape, marks⟩ := e
  have hname : ∀ name : Name, ∀ c ∈ name.1, (!Text.isBlank c) = true := fun name c hc => by
    simp [not_blank_of_isNamePart (name.2.2 c hc)]
  cases shape with
  | plain name =>
    refine Or.inl (Text.takeWhile_append_cons (fun c hc => ?_) (by simp [hb]))
    rcases List.mem_append.1 hc with hc | hc
    · exact hname name c hc
    · simp [not_blank_of_mem_marksText hc]
  | generic name arguments =>
    refine Or.inr (Or.inl ?_)
    have hall : Expression.render ⟨.generic name arguments, marks⟩ ++ blank :: tail =
        name.1 ++ '<' :: (arguments.render ++ '>' :: (marksText marks ++ blank :: tail)) := by
      simp [Expression.render, Shape.render]
    rw [hall, Outline.firstWord, List.takeWhile_append_of_pos (hname name), List.takeWhile_cons_of_pos (by decide)]
    exact List.mem_append_right _ List.mem_cons_self
  | tuple elements =>
    refine Or.inr (Or.inr ?_)
    have hall : Expression.render ⟨.tuple elements, marks⟩ ++ blank :: tail =
        '(' :: (elements.render ++ ')' :: (marksText marks ++ blank :: tail)) := by
      simp [Expression.render, Shape.render]
    rw [hall, Outline.firstWord, List.takeWhile_cons_of_pos (by decide)]
    exact List.mem_cons_self

end ClassAtlas.TypeTree

namespace ClassAtlas.Signature

open Nesting (Delimiters Shielded)
open TypeTree (isSignatureChar)

structure Parameter where
  type : TypeTree.Expression
  name : TypeTree.Name
  chars : ∀ c ∈ type.render ++ name.1, isSignatureChar c = true
  unmodified : Vocabulary.isParameterWord type.render = false

def Parameter.render (p : Parameter) : Text := p.type.render ++ ' ' :: p.name.1

def parametersText (parameters : List Parameter) : Text := List.intercalate [',', ' '] (parameters.map Parameter.render)

def trees (parameters : List Parameter) : List TypeTree := parameters.map fun p => p.type.tree

/-! ## One parameter -/

theorem dropAttributes?_of_ne {s : Text} {c : Char} (hc : c ≠ '[') :
    Outline.dropAttributes? (c :: s) = some (c :: s) := by
  rw [Outline.dropAttributes?]
  exact fun rest h => hc (List.cons.inj h).1

namespace Parameter

variable (p : Parameter)

theorem type_chars : ∀ c ∈ p.type.render, isSignatureChar c = true := fun c hc => p.chars c (List.mem_append_left _ hc)

/-- a type starts with no attribute -/
theorem dropAttributes?_append (tail : Text) :
    Outline.dropAttributes? (p.type.render ++ tail) = some (p.type.render ++ tail) := by
  obtain ⟨c, rest, htext, hc⟩ := p.type.shape.exists_first
  have hbox : c ≠ '[' := by
    rcases hc with hc | rfl
    · exact fun he => absurd (he ▸ hc) (by decide)
    · decide
  have hrender : p.type.render ++ tail = c :: (rest ++ TypeTree.marksText p.type.marks ++ tail) := by
    rw [TypeTree.Expression.render, htext]
    rfl
  rw [hrender]
  exact dropAttributes?_of_ne hbox

variable {blank : Char} (hb : Text.isBlank blank = true)
include hb

theorem dropModifiers_append (tail : Text) :
    Outline.dropModifiers (p.type.render ++ blank :: tail) = p.type.render ++ blank :: tail := by
  have hbrackets : ∀ w ∈ Vocabulary.parameterWords, '<' ∉ w ∧ '(' ∉ w := by decide
  have hword : ¬ Vocabulary.isParameterWord (Outline.firstWord (p.type.render ++ blank :: tail)) = true := by
    intro hmem
    have hwords := hbrackets _ (by simpa [Vocabulary.isParameterWord] using hmem)
    rcases TypeTree.firstWord_expression p.type hb tail with h | h | h
    · rw [h, p.unmodified] at hmem
      contradiction
    · exact hwords.1 h
    · exact hwords.2 h
  rw [Outline.dropModifiers, dif_neg hword]

/-- the type reaches to the blank behind it -/
theorem leadingType_append (tail : Text) : Outline.leadingType (p.type.render ++ blank :: tail) = p.type.render := by
  have hshielded : Shielded Delimiters.grouping (Text.isBlank · = false) p.type.render :=
    TypeTree.Expression.shielded (by decide) (by decide) (fun _ _ _ h => h) p.type_chars (Or.inr (by decide))
  rw [Outline.leadingType, Nesting.cutWhere?_append_cons hshielded hb]
  rfl

omit hb

theorem solid_type : Text.StartsSolid p.type.render ∧ Text.EndsSolid p.type.render :=
  ⟨p.type.shape.startsSolid.append _, p.type.shape.endsSolid_marks _⟩

theorem solid : Text.StartsSolid p.render ∧ Text.EndsSolid p.render :=
  ⟨p.solid_type.1.append _, ((TypeTree.solid_name p.name).2.append [' ']).append _⟩

theorem typeOfParameter?_render : Outline.typeOfParameter? p.render = some p.type.render := by
  have hblank : Text.isBlank ' ' = true := by decide
  have htype := Text.trim_eq_self p.solid_type.1 p.solid_type.2
  have htrim := Text.trim_eq_self p.solid.1 p.solid.2
  rw [render] at htrim ⊢
  simp [Outline.typeOfParameter?, htrim, p.dropAttributes?_append, p.dropModifiers_append hblank,
    p.leadingType_append hblank, htype, p.solid_type.1.ne_nil]

section Scan

variable {counted : Delimiters} {test : Char → Prop}

theorem shielded_type (hangle : .bracket .angle ∈ counted) (hround : .bracket .round ∈ counted)
    (hp : ∀ c, c ≠ ',' → c ≠ ')' → test c) (hc : .bracket .box ∈ counted ∨ test ',') :
    Shielded counted test p.type.render :=
  TypeTree.Expression.shielded hangle hround (fun c h1 h2 _ => hp c h1 h2) p.type_chars hc

theorem shielded_name (hp : ∀ c, c ≠ ',' → c ≠ ')' → test c) : Shielded counted test p.name.1 := by
  refine .of_forall fun c hm => ?_
  have hpart := p.name.2.2 c hm
  refine ⟨TypeTree.plain_of_isNamePart counted hpart (p.chars c (List.mem_append_right _ hm)), hp c ?_ ?_⟩
  · exact fun he => absurd (he ▸ hpart) (by decide)
  · exact fun he => absurd (he ▸ hpart) (by decide)

/-- commas and closing parentheses stand inside the brackets of the type only -/
theorem shielded (hangle : .bracket .angle ∈ counted) (hround : .bracket .round ∈ counted)
    (hp : ∀ c, c ≠ ',' → c ≠ ')' → test c) (hc : .bracket .box ∈ counted ∨ test ',') :
    Shielded counted test p.render := by
  have hspace : Shielded counted test [' '] :=
    .char (Nesting.plain_of_isBlank counted (by decide)) (hp _ (by decide) (by decide))
  exact (p.shielded_type hangle hround hp hc).append (hspace.append (p.shielded_name hp))

end Scan

end Parameter

/-! ## The list -/

theorem split_parametersText (parameters : List Parameter) :
    Nesting.split Delimiters.all ',' (parametersText parameters) = parameters.map Parameter.render := by
  by_cases hne : parameters.map Parameter.render = []
  · obtain rfl := List.map_eq_nil_iff.1 hne
    decide
  · have hpiece : ∀ q ∈ parameters.map Parameter.render, Nesting.IsPiece Delimiters.all ',' q := by
      intro q hq
      obtain ⟨p, -, rfl⟩ := List.mem_map.1 hq
      exact ⟨p.solid.1, p.solid.2, p.shielded (by decide) (by decide) (fun _ h _ => h) (Or.inl (by decide))⟩
    simpa [parametersText] using Nesting.split_comma_space hne hpiece ⟨[], by simp⟩ ⟨[], by simp⟩

/-- **a list of parameters is read back**, whatever comes behind its parenthesis -/
theorem parametersAfter_text (parameters : List Parameter) (rest : Text) :
    Outline.parametersAfter (parametersText parameters ++ ')' :: rest) = trees parameters := by
  have hlist : Shielded (Delimiters.grouping ++ Delimiters.literals) (· ≠ ')') (parametersText parameters) := by
    refine Shielded.intercalate ?_ fun q hq => ?_
    · have hcomma : Shielded (Delimiters.grouping ++ Delimiters.literals) (· ≠ ')') [','] :=
        .char (Nesting.plain_comma _) (by decide)
      exact hcomma.append (.char (Nesting.plain_of_isBlank _ (by decide)) (by decide))
    · obtain ⟨p, -, rfl⟩ := List.mem_map.1 hq
      exact p.shielded (by decide) (by decide) (fun _ _ h => h) (Or.inr (by decide))
  have htypes : Outline.typeOfParameter? ∘ Parameter.render = some ∘ fun p => p.type.render :=
    funext Parameter.typeOfParameter?_render
  rw [Outline.parametersAfter, Nesting.before, Nesting.cut?_append_cons hlist, Option.map_some, Option.getD_some,
    Outline.parameterTypes, split_parametersText, List.filterMap_map, htypes, List.filterMap_eq_map, List.map_map]
  exact List.map_congr_left fun p _ => TypeTree.parse_shape p.type.shape p.type.marks

end ClassAtlas.Signature
