/-
Declarations with a list of bases.

Behind the name of a class come its type parameters, the parameters of a primary constructor, a colon, the bases, and a
clause that ends their list. The header ends at the first curly bracket, the bases start behind the first colon outside
brackets, and the parameters of the primary constructor behind the first parenthesis, if it stands before that colon. On
such a line the brackets before the colon are paired, so the name, the start of the bases and the constructor are where
they should be, and the bases are read if their list is separated (`ofLines?_listed`). A list is cut between its bases
only then (`isSeparated_iff`): not where a sign in the arguments of a base closes a bracket that was never opened, so
that a comma is met or missed, nor where a base is the word `where` between two blanks, nor where an array for a base
has a comma in its rank. `listed_misread` shows such lines, and one with the word `scoped` for a type.
-/
import ClassAtlas.Proofs.Signature.Constructor

namespace ClassAtlas.Signature

open Nesting (Delimiters Shielded)

/-! ## The line -/

structure ListedDeclaration where
  modifiers : List Modifier
  name : Text
  isName : IsName name
  typeParameters : Option { s : Text // ∀ c ∈ s, Outline.isTypeParameterChar c = true }
  primary : Option (List Parameter)
  bases : BaseList
  clause : Option { s : Text // '{' ∉ s }
  braced : Bool

namespace ListedDeclaration

variable (d : ListedDeclaration)

/-- the declaration before its bases -/
def head : Declaration where
  modifiers := d.modifiers
  name := d.name
  typeParameters := d.typeParameters.map Subtype.val
  primary := d.primary.map parametersText

/-- what stands behind the bases -/
def rest : Text := (d.clause.map fun clause => (" where " : Text) ++ clause.1).getD []

/-- the bases and the clause behind them -/
def list : Text := d.bases.text ++ d.rest

/-- the bracket of the body, if it stands on the line -/
def bracket : Text := if d.braced then ['{'] else []

def line : Text := d.head.text ++ ' ' :: ':' :: (d.list ++ d.bracket)

/-! ## The places -/

theorem isPaired_head : d.head.IsPaired := by
  refine ⟨fun inner hinner => ?_, fun inner hinner => ?_⟩
  · obtain ⟨list, -, rfl⟩ := Option.map_eq_some_iff.1 hinner
    refine .of_forall fun c hc => ⟨TypeTree.plain_grouping ⟨?_, ?_, ?_, ?_⟩, trivial⟩
    all_goals
      rintro rfl
      exact absurd (list.2 _ hc) (by decide)
  · obtain ⟨parameters, -, rfl⟩ := Option.map_eq_some_iff.1 hinner
    refine Shielded.intercalate ?_ fun q hq => ?_
    · have hcomma : Shielded Delimiters.grouping (fun _ => True) [','] := .char (Nesting.plain_comma _) trivial
      exact hcomma.append (.char (Nesting.plain_of_isBlank _ (by decide)) trivial)
    · obtain ⟨p, -, rfl⟩ := List.mem_map.1 hq
      exact p.shielded (by decide) (by decide) (fun _ _ _ => trivial) (Or.inr trivial)

/-- neither a parenthesis nor a curly bracket stands in the list of type parameters -/
theorem not_mem_typeParameters {c : Char} (ho : c ≠ '<') (hc : c ≠ '>') (h : Outline.isTypeParameterChar c = false) :
    c ∉ groupText .angle d.head.typeParameters := by
  refine not_mem_groupText ho hc fun inner hinner hm => ?_
  obtain ⟨list, -, rfl⟩ := Option.map_eq_some_iff.1 hinner
  rw [list.2 c hm] at h
  contradiction

theorem curly_not_mem_lists : '{' ∉ d.head.lists := by
  intro hm
  rcases List.mem_append.1 hm with hm | hm
  · exact d.not_mem_typeParameters (by decide) (by decide) (by decide) hm
  · refine not_mem_groupText (by decide) (by decide) (fun inner hinner hcurly => ?_) hm
    obtain ⟨parameters, -, rfl⟩ := Option.map_eq_some_iff.1 hinner
    exact absurd (chars_parametersText parameters _ hcurly) (by decide)

theorem curly_not_mem_list : '{' ∉ d.list := by
  intro hm
  rcases List.mem_append.1 hm with hm | hm
  · exact d.bases.curly_not_mem_text hm
  · unfold rest at hm
    cases hclause : d.clause with
    | none => simp [hclause] at hm
    | some clause =>
      rw [hclause] at hm
      have hwhere : '{' ∉ (" where " : Text) := by decide
      exact (List.mem_append.1 hm).elim hwhere clause.2

theorem headerOf_line :
    Outline.headerOf (d.head.lists ++ ' ' :: ':' :: (d.list ++ d.bracket)) =
      (d.head.lists ++ [' ']) ++ ':' :: d.list := by
  have hbracket : Outline.headerOf d.bracket = [] := by
    unfold bracket
    cases d.braced <;> rfl
  have hcurly : '{' ∉ (d.head.lists ++ [' ']) ++ ':' :: d.list := by
    simp [d.curly_not_mem_lists, d.curly_not_mem_list]
  have htext : d.head.lists ++ ' ' :: ':' :: (d.list ++ d.bracket) =
      ((d.head.lists ++ [' ']) ++ ':' :: d.list) ++ d.bracket := by
    simp
  rw [htext, headerOf_append hcurly, hbracket, List.append_nil]

/-- the first colon outside brackets is the one before the bases -/
theorem colonCut?_line : Outline.colonCut? (d.head.lists ++ ' ' :: ':' :: (d.list ++ d.bracket)) =
    some (d.head.lists ++ [' '], ':' :: d.list) := by
  have hblank : Shielded Delimiters.grouping (· ≠ ':') [' '] :=
    .char (Nesting.plain_of_isBlank _ (by decide)) (by decide)
  rw [Outline.colonCut?, headerOf_line]
  exact Nesting.cut?_append_cons (d.isPaired_head.shielded.append hblank) _

/-! ## What is read -/

theorem listEnd_rest : ListEnd d.rest := by
  unfold rest
  cases d.clause with
  | none => exact .blanks Text.nothing
  | some clause => exact .clause clause.1

theorem primaryParameters?_line :
    Outline.primaryParameters? (d.head.lists ++ ' ' :: ':' :: (d.list ++ d.bracket)) =
      d.primary.map fun parameters => (trees parameters).filter (!Outline.isRootBase ·) := by
  have hround : '(' ∉ groupText .angle d.head.typeParameters :=
    d.not_mem_typeParameters (by decide) (by decide) (by decide)
  have hbefore : Outline.beforeColon (d.head.lists ++ ' ' :: ':' :: (d.list ++ d.bracket)) = d.head.lists ++ [' '] := by
    rw [Outline.beforeColon, colonCut?_line]
  rw [Outline.primaryParameters?, hbefore, Declaration.lists]
  cases hprimary : d.primary with
  | none =>
    have hnone : d.head.primary = none := by simp [head, hprimary]
    have hopen : ¬ (groupText .angle d.head.typeParameters ++ groupText .round d.head.primary ++ [' ']).contains '(' =
        true := by
      rw [hnone, List.contains_iff_mem]
      simp [groupText] at hround ⊢
      exact hround
    rw [if_neg hopen]
    rfl
  | some parameters =>
    have hsome : groupText .round d.head.primary = '(' :: (parametersText parameters ++ [')']) := by
      simp [head, hprimary, groupText, Nesting.Bracket.opening, Nesting.Bracket.closing]
    have hopen : (groupText .angle d.head.typeParameters ++ groupText .round d.head.primary ++ [' ']).contains '(' =
        true := by
      rw [hsome, List.contains_iff_mem]
      simp
    have htext : groupText .angle d.head.typeParameters ++ groupText .round d.head.primary ++
          ' ' :: ':' :: (d.list ++ d.bracket) =
        groupText .angle d.head.typeParameters ++
          '(' :: (parametersText parameters ++ ')' :: ' ' :: ':' :: (d.list ++ d.bracket)) := by
      rw [hsome]
      simp
    rw [if_pos hopen, htext, Text.splitFirst?_append_cons hround, Option.map_some, parametersAfter_text]
    rfl

end ListedDeclaration

/-- **The bases and the primary constructor of a declaration are read exactly**: one constructor with the types of its
parameters if there is a list of them, and the trees of the bases in order, if nothing in their arguments passes for the
end of a base or of the list, as nothing does in a plain list. The root of all classes is left out of both. -/
theorem ofLines?_listed (d : ListedDeclaration) (body : List Text) :
    (d.bases.IsPlain → d.bases.IsSeparated d.rest) ∧
    ∃ o, Outline.ofLines? (d.line :: body) = some o ∧ o.name = d.name ∧
      (d.bases.IsSeparated d.rest → o.bases = some d.bases.trees) ∧
      o.constructors = (d.primary.map fun parameters =>
          Constructor.mk d.name ((trees parameters).filter (!Outline.isRootBase ·))).toList ++
        constructorsOn d.name body := by
  refine ⟨fun hplain => BaseList.isSeparated_of_plain hplain d.listEnd_rest, ?_⟩
  have hstop : Pattern.Stops Text.isWord (' ' :: ':' :: (d.list ++ d.bracket)) := Pattern.stops_cons (by decide) _
  obtain ⟨taken, hfound⟩ := d.head.classMatch?_text d.isName hstop
  obtain ⟨o, ho, hname, hbases⟩ := ofLines?_header hfound body
  obtain ⟨o', ho', -, hconstructors, -⟩ := ofLines?_declared hfound body
  obtain rfl : o = o' := Option.some.inj (ho.symm.trans ho')
  refine ⟨o, ho, hname, fun hseparated => ?_, ?_⟩
  · rw [hbases, Outline.basesOf?, d.colonCut?_line, Option.map_some, List.drop_one, List.tail_cons,
      ListedDeclaration.list, BaseList.baseTypes_text hseparated d.listEnd_rest]
  · rw [hconstructors, primaryConstructor, d.primaryParameters?_line, Option.map_map]
    rfl

/-- a declaration with all its parts -/
example :
    let base : Base := {
      before := Text.space, shape := .plain ⟨"Base", by decide⟩, named := rfl, marks := []
      arguments := none, after := Text.nothing, unbraced := by decide }
    let d : ListedDeclaration := {
      modifiers := [⟨"public", by decide⟩], name := ['F', 'o', 'o']
      isName := ⟨⟨'F', ['o', 'o'], rfl, by decide, by decide⟩, by decide⟩
      typeParameters := some ⟨['T'], by decide⟩, primary := some [barParameter], bases := ⟨[], base⟩
      clause := some ⟨"T : class ", by decide⟩, braced := true }
    d.line = ("public class Foo<T>(Bar b) : Base where T : class \x7b" : Text) ∧ d.bases.IsSeparated d.rest := by
  decide

/-- two bases with signs in their arguments -/
def signedDeclaration : ListedDeclaration where
  modifiers := []
  name := ['F', 'o', 'o']
  isName := ⟨⟨'F', ['o', 'o'], rfl, by decide, by decide⟩, by decide⟩
  typeParameters := none
  primary := none
  bases := {
    front := [{
      before := Text.space, shape := .plain ⟨"Base", by decide⟩, named := rfl, marks := []
      arguments := some "x > 0 < y", after := Text.nothing, unbraced := by decide }]
    last := {
      before := Text.space, shape := .plain ⟨"Other", by decide⟩, named := rfl, marks := []
      arguments := some "x => x.Y", after := Text.space, unbraced := by decide } }
  clause := none
  braced := true

/-- no comma is met between the signs in `Base(x > 0 < y)`, and none behind the sign in `Other(x => x.Y)` -/
theorem ofLines?_listed_signs :
    signedDeclaration.line = ("class Foo : Base(x > 0 < y), Other(x => x.Y) \x7b" : Text) ∧
      signedDeclaration.bases.IsSeparated signedDeclaration.rest ∧
      ∃ o, Outline.ofLines? [signedDeclaration.line] = some o ∧
        o.bases = some [.leaf "Base", .leaf "Other"] ∧ o.constructors = [] := by
  have hseparated : signedDeclaration.bases.IsSeparated signedDeclaration.rest := by decide
  obtain ⟨-, o, ho, -, hbases, hconstructors⟩ := ofLines?_listed signedDeclaration []
  exact ⟨by decide, hseparated, o, ho, hbases hseparated, hconstructors⟩

/-- the names of the bases that are read on a line -/
def basesOn (line : Text) : Option (List Text) :=
  (Outline.ofLines? [line]).bind fun o => o.bases.map (·.map TypeTree.base)

/-- the names of the types that the constructors on a line take -/
def parametersOn (line : Text) : List (List Text) :=
  (Outline.ofLines? [line]).toList.flatMap fun o => o.constructors.map fun c => c.parameters.map TypeTree.base

/-- `class Foo : Base(x > 0), IFoo {` loses its second base, since the sign closes a bracket that was never opened;
other signs expose a comma or the word `where` in the arguments of a base, or a comma in the clause, which is then read
as part of the list; `class Foo(scoped x) : Base {` has a parameter of type `x`, and `class Foo : where {` no bases; and
the rank of `class Foo : Bar[,] {` is cut at its comma -/
theorem listed_misread :
    (∀ arguments ∈ (["x > 0", "x > 0, y < z", "x > where < z"] : List Text),
      basesOn (("class Foo : Base(" : Text) ++ arguments ++ ("), IFoo \x7b" : Text)) ≠
        some [("Base" : Text), ("IFoo" : Text)]) ∧
    basesOn ("class Foo : Base(x > 0) where T : IBar<A, B> \x7b" : Text) ≠ some [("Base" : Text)] ∧
    (¬ ∀ type : TypeTree.Name,
      parametersOn (("class Foo(" : Text) ++ type.1 ++ (" x) : Base \x7b" : Text)) = [[type.1]]) ∧
    (¬ ∀ base : TypeTree.Name, basesOn (("class Foo : " : Text) ++ base.1 ++ (" \x7b" : Text)) = some [base.1]) ∧
    ¬ ∀ marks : List TypeTree.Mark, basesOn (("class Foo : Bar" : Text) ++ TypeTree.marksText marks ++
      (" \x7b" : Text)) = some [("Bar" : Text) ++ TypeTree.marksText marks] := by
  refine ⟨by decide +kernel, by decide +kernel, fun h => ?_, fun h => ?_, fun h => ?_⟩
  · exact absurd (h ⟨"scoped", by decide⟩) (by decide +kernel)
  · exact absurd (h ⟨"where", by decide⟩) (by decide +kernel)
  · exact absurd (h [.rank 1]) (by decide +kernel)

end ClassAtlas.Signature
