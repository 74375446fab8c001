/-
Constructors and their visibility.

A constructor after one word for its visibility is recorded with the types of its parameters. After two such words the
line is taken for a method: the pattern of a method gives back the second word, reads it as the type of a result, and
comes before the pattern of a constructor. So the constructor is lost, and the class refers to a type of the name of
that word (`ofLines?_constructorLine`).
-/
import ClassAtlas.Proofs.Signature.Header
import ClassAtlas.Proofs.Written.Member

namespace ClassAtlas.Signature

open Outline (visibilityWords)
open Pattern (IsRun isNameChar)
open TypeTree (isSignatureChar)

/-- a constructor after these words for its visibility -/
def constructorLine (visibility : List Text) (name : Text) (parameters : List Parameter) : Text :=
  visibility.flatMap (· ++ [' ']) ++ name ++ '(' :: parametersText parameters ++ [')', ' ', '{']

/-! ## A word for visibility where a type is read -/

/-- such a word as a type -/
def visibilityRef {v : Text} (hv : v ∈ visibilityWords) : Written.TypeRef where
  shape := .plain ⟨v, by
    have hname : ∀ v ∈ visibilityWords, v ≠ [] ∧ ∀ c ∈ v, TypeTree.isNamePart c = true := by decide
    exact hname v hv⟩
  ordinary := by
    have hdotted : ∀ v ∈ visibilityWords, Written.isDotted v = true := by decide +kernel
    exact hdotted v hv
  fits := by
    have hlength : ∀ v ∈ visibilityWords, decide (v.length ≤ 128) = true := by decide
    exact hlength v hv
  mark := none

theorem render_visibilityRef {v : Text} (hv : v ∈ visibilityWords) : (visibilityRef hv).render = v :=
  List.append_nil v

/-- the words for visibility are not among those that cannot be types -/
theorem isNonTypeWord_visibility {v : Text} (hv : v ∈ visibilityWords) : Vocabulary.isNonTypeWord v = false := by
  have hwords : ∀ v ∈ visibilityWords, Vocabulary.isNonTypeWord v = false := by decide +kernel
  exact hwords v hv

theorem resultType?_visibility {v : Text} (hv : v ∈ visibilityWords) :
    Outline.resultType? v = some (TypeTree.leaf v) := by
  have hwords : ∀ v ∈ visibilityWords, v ≠ ("void" : Text) := by decide
  have hparse := (visibilityRef hv).parse_typeRef
  have htree : (visibilityRef hv).tree = TypeTree.leaf (v ++ []) := rfl
  rw [render_visibilityRef, htree, List.append_nil] at hparse
  rw [Outline.resultType?, if_neg (hwords v hv), hparse]

/-! ## The line -/

theorem isSignatureChar_of_isNameChar {c : Char} (h : isNameChar c = true) : isSignatureChar c = true :=
  Written.isSignatureChar_of_isArgumentChar (by simp [Pattern.isArgumentChar, Pattern.isDottedChar, h])

theorem chars_parametersText (parameters : List Parameter) :
    ∀ c ∈ parametersText parameters, isSignatureChar c = true := by
  refine Text.forall_mem_intercalate (by decide) fun text htext => ?_
  obtain ⟨p, -, rfl⟩ := List.mem_map.1 htext
  intro c hc
  rcases List.mem_append.1 hc with hc | hc
  · exact p.type_chars c hc
  · rcases List.mem_cons.1 hc with rfl | hc
    · decide
    · exact p.chars c (List.mem_append_right _ hc)

section Line

variable {n : Text} (hn : IsRun isNameChar n) (parameters : List Parameter)
include hn

theorem chars_constructorLine {visibility : List Text} (hv : ∀ w ∈ visibility, w ∈ visibilityWords) :
    ∀ c ∈ visibility.flatMap (· ++ [' ']) ++ n ++ '(' :: parametersText parameters, isSignatureChar c = true := by
  have hname : ∀ c ∈ n, isSignatureChar c = true := by
    obtain ⟨d, rest, rfl, hd, hrest⟩ := hn
    refine List.forall_mem_cons.2 ⟨isSignatureChar_of_isNameChar (Pattern.isNameChar_of_isNameStart hd), ?_⟩
    exact fun c hc => isSignatureChar_of_isNameChar (hrest c hc)
  intro c hc
  rcases List.mem_append.1 hc with hc | hc
  · rcases List.mem_append.1 hc with hc | hc
    · obtain ⟨w, hw, hc⟩ := List.mem_flatMap.1 hc
      rcases List.mem_append.1 hc with hc | hc
      · exact isSignatureChar_of_isNameChar (Written.areNames_visibilityWords w (hv w hw) c hc)
      · obtain rfl := List.mem_singleton.1 hc
        decide
    · exact hname c hc
  · rcases List.mem_cons.1 hc with rfl | hc
    · decide
    · exact chars_parametersText parameters c hc

/-- neither a field nor a property stands on the line -/
theorem memberType?_constructorLine {visibility : List Text} (hv : ∀ w ∈ visibility, w ∈ visibilityWords) :
    Outline.memberType? (constructorLine visibility n parameters) = none := by
  have hchars := chars_constructorLine hn parameters hv
  exact Outline.memberType?_parenthesis (fun hm => absurd (hchars _ hm) (by decide))
    (fun hm => absurd (hchars _ hm) (by decide)) fun hm => absurd (hchars _ hm) (by decide)

variable (hlen : n.length ≤ 128)
include hlen

/-- **after one word the constructor is read** -/
theorem declaredOn_one {w : Text} (hw : w ∈ visibilityWords) :
    Outline.declaredOn n (constructorLine [w] n parameters) = ⟨none, none, some ⟨n, trees parameters⟩⟩ := by
  have hline : constructorLine [w] n parameters =
      w ++ ' ' :: (n ++ '(' :: (parametersText parameters ++ ')' :: [' ', '{'])) := by
    simp [constructorLine]
  have hfield := memberType?_constructorLine hn parameters (List.forall_mem_singleton.2 hw)
  have hmethod : Outline.method? (constructorLine [w] n parameters) = none := by
    rw [hline, Outline.method?, Pattern.first?, Written.methodPattern_constructor hn hlen _ hw]
    rfl
  obtain ⟨taken, hfirst⟩ :=
    Written.first?_constructorPattern hn hlen (parametersText parameters ++ ')' :: [' ', '{']) hw
  have hconstructor := Outline.constructor?_of_first? hfirst
  rw [parametersAfter_text, ← hline] at hconstructor
  rw [Outline.declaredOn, hfield, hmethod, hconstructor]
  rfl

/-- **after two words a method is read**, with the second word for its result -/
theorem declaredOn_two {w v : Text} (hw : w ∈ visibilityWords) (hv : v ∈ visibilityWords) :
    Outline.declaredOn n (constructorLine [w, v] n parameters) =
      ⟨none, some ⟨some (TypeTree.leaf v), trees parameters⟩, none⟩ := by
  have hline : constructorLine [w, v] n parameters =
      w ++ ' ' :: ((visibilityRef hv).render ++ ' ' ::
        (n ++ '(' :: (parametersText parameters ++ ')' :: [' ', '{']))) := by
    rw [render_visibilityRef]
    simp [constructorLine]
  have hfield := memberType?_constructorLine hn parameters
    (List.forall_mem_cons.2 ⟨hw, List.forall_mem_singleton.2 hv⟩)
  obtain ⟨taken, hfirst⟩ :=
    Written.first?_methodPattern hn hlen (parametersText parameters ++ ')' :: [' ', '{']) hw (visibilityRef hv)
  rw [← hline, render_visibilityRef] at hfirst
  have hmethod := Outline.method?_of_first? hfirst (isNonTypeWord_visibility hv)
  rw [parametersAfter_text, resultType?_visibility hv] at hmethod
  rw [Outline.declaredOn, hfield, hmethod]
  rfl

end Line

/-! ## The class -/

/-- the constructors that lines declare -/
def constructorsOn (className : Text) (lines : List Text) : List Constructor :=
  (lines.map (Outline.declaredOn className)).filterMap Outline.Declared.constructor

/-- the methods that lines declare -/
def methodsOn (className : Text) (lines : List Text) : List Method :=
  (lines.map (Outline.declaredOn className)).filterMap Outline.Declared.method

/-- the types of the fields and properties that lines declare -/
def memberTypesOn (className : Text) (lines : List Text) : List TypeTree :=
  (lines.map (Outline.declaredOn className)).filterMap Outline.Declared.memberType

/-- what a line declares stands between what the lines above it and below it declare -/
theorem filterMap_declaredOn_insert {α : Type} (part : Outline.Declared → Option α) (className line : Text)
    (above below : List Text) :
    ((above ++ line :: below).map (Outline.declaredOn className)).filterMap part =
      (above.map (Outline.declaredOn className)).filterMap part ++
        ((part (Outline.declaredOn className line)).toList ++
          (below.map (Outline.declaredOn className)).filterMap part) := by
  rw [List.map_append, List.filterMap_append, List.map_cons, List.filterMap_cons]
  cases part (Outline.declaredOn className line) <;> rfl

theorem constructorsOn_insert (className line : Text) (above below : List Text) :
    constructorsOn className (above ++ line :: below) = constructorsOn className above ++
      ((Outline.declaredOn className line).constructor.toList ++ constructorsOn className below) :=
  filterMap_declaredOn_insert _ className line above below

theorem methodsOn_insert (className line : Text) (above below : List Text) :
    methodsOn className (above ++ line :: below) = methodsOn className above ++
      ((Outline.declaredOn className line).method.toList ++ methodsOn className below) :=
  filterMap_declaredOn_insert _ className line above below

theorem memberTypesOn_insert (className line : Text) (above below : List Text) :
    memberTypesOn className (above ++ line :: below) = memberTypesOn className above ++
      ((Outline.declaredOn className line).memberType.toList ++ memberTypesOn className below) :=
  filterMap_declaredOn_insert _ className line above below

/-- the constructor in the declaration of the class -/
def primaryConstructor (found : Match Text) : List Constructor :=
  ((Outline.primaryParameters? found.rest).map (Constructor.mk found.value)).toList

theorem ofLines?_declared {declaration : Text} {found : Match Text} (h : Source.classMatch? declaration = some found)
    (body : List Text) : ∃ o, Outline.ofLines? (declaration :: body) = some o ∧ o.name = found.value ∧
      o.constructors = primaryConstructor found ++ constructorsOn found.value body ∧
      o.methods = methodsOn found.value body ∧ o.memberTypes = memberTypesOn found.value body := by
  simp only [Outline.ofLines?, h, Option.bind_eq_bind, Option.bind_some, Option.pure_def, Option.some.injEq]
  exact ⟨_, rfl, rfl, rfl, rfl, rfl⟩

/-- **A constructor is recorded after one word for its visibility, and lost after two.** Its line gives the class one
constructor with the types of the parameters and no method; with two words it gives no constructor and one method, whose
result is the second word. -/
theorem ofLines?_constructorLine {declaration : Text} {found : Match Text}
    (h : Source.classMatch? declaration = some found) (above below : List Text) (parameters : List Parameter) :
    (∀ w ∈ visibilityWords, ∃ o,
      Outline.ofLines? (declaration :: (above ++ constructorLine [w] found.value parameters :: below)) = some o ∧
        o.name = found.value ∧
        o.constructors = primaryConstructor found ++ (constructorsOn found.value above ++
          ⟨found.value, trees parameters⟩ :: constructorsOn found.value below) ∧
        o.methods = methodsOn found.value above ++ methodsOn found.value below) ∧
    ∀ w ∈ visibilityWords, ∀ v ∈ visibilityWords, ∃ o,
      Outline.ofLines? (declaration :: (above ++ constructorLine [w, v] found.value parameters :: below)) = some o ∧
        o.name = found.value ∧
        o.constructors = primaryConstructor found ++
          (constructorsOn found.value above ++ constructorsOn found.value below) ∧
        o.methods = methodsOn found.value above ++
          ⟨some (TypeTree.leaf v), trees parameters⟩ :: methodsOn found.value below := by
  obtain ⟨hn, hlen⟩ := Source.isRun_of_classMatch? h
  refine ⟨fun w hw => ?_, fun w hw v hv => ?_⟩
  · obtain ⟨o, ho, hname, hconstructors, hmethods, -⟩ :=
      ofLines?_declared h (above ++ constructorLine [w] found.value parameters :: below)
    rw [constructorsOn_insert, declaredOn_one hn parameters hlen hw] at hconstructors
    rw [methodsOn_insert, declaredOn_one hn parameters hlen hw] at hmethods
    exact ⟨o, ho, hname, hconstructors, hmethods⟩
  · obtain ⟨o, ho, hname, hconstructors, hmethods, -⟩ :=
      ofLines?_declared h (above ++ constructorLine [w, v] found.value parameters :: below)
    rw [constructorsOn_insert, declaredOn_two hn parameters hlen hw hv] at hconstructors
    rw [methodsOn_insert, declaredOn_two hn parameters hlen hw hv] at hmethods
    exact ⟨o, ho, hname, hconstructors, hmethods⟩

/-- `b` of type `Bar` -/
def barParameter : Parameter where
  type := ⟨.plain ⟨"Bar", by decide⟩, []⟩
  name := ⟨"b", by decide⟩
  chars := by decide
  unmodified := by decide

/-- `public Foo(Bar b) {` and `protected internal Foo(Bar b) {` in a class -/
theorem ofLines?_constructorLine_foo :
    ∃ found, Source.classMatch? ("class Foo \x7b" : Text) = some found ∧
      (∃ o, Outline.ofLines? ["class Foo \x7b", constructorLine ["public"] found.value [barParameter]] = some o ∧
        o.constructors = [⟨found.value, [.leaf "Bar"]⟩] ∧ o.methods = []) ∧
      ∃ o, Outline.ofLines? ["class Foo \x7b", constructorLine ["protected", "internal"] found.value [barParameter]] =
        some o ∧ o.constructors = [] ∧ o.methods = [⟨some (.leaf "internal"), [.leaf "Bar"]⟩] := by
  have hend : Pattern.Stops Text.isWord [' ', '{'] := Pattern.stops_cons (by decide) _
  have hn : IsRun isNameChar ("Foo" : Text) := ⟨'F', ['o', 'o'], by decide, by decide, by decide⟩
  obtain ⟨taken, hfirst⟩ := Source.first?_classPattern hn (by decide) hend
  have hfound := classMatch?_modifiers hfirst (List.cons_ne_nil _ _) []
  obtain ⟨hone, htwo⟩ := ofLines?_constructorLine hfound [] [] [barParameter]
  obtain ⟨o, ho, -, hconstructors, hmethods⟩ := hone "public" (by decide)
  obtain ⟨o', ho', -, hconstructors', hmethods'⟩ := htwo "protected" (by decide) "internal" (by decide)
  exact ⟨_, hfound, ⟨o, ho, hconstructors, hmethods⟩, o', ho', hconstructors', hmethods'⟩

/-- the constructor of `protected internal Foo(Bar b) {` is not recorded -/
theorem constructor_lost_after_two_words :
    ¬ ∀ w ∈ visibilityWords, ∀ v ∈ visibilityWords,
      (Outline.ofLines? ["class Foo \x7b", constructorLine [w, v] "Foo" [barParameter], "\x7d", "\x7d"]).map
        (fun o => (o.constructors.length, o.methods.length)) = some (1, 0) := by
  intro h
  have hconstructor := h "protected" (by decide) "internal" (by decide)
  exact absurd hconstructor (by decide +kernel)

end ClassAtlas.Signature
