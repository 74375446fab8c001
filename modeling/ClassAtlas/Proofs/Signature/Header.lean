/-
Declarations without a list of bases.

A declaration names the class behind words such as `public`. Then come the type parameters, the parameters of a primary
constructor, and clauses that constrain type parameters. The list of bases is looked for behind the first colon outside
angle and round brackets. Where there is no such list, that is the colon of the first clause, so its constraints are
read as bases (`ofLines?_unlisted`).
-/
import ClassAtlas.Proofs.DeclarationLine
import ClassAtlas.Proofs.ScanState
import ClassAtlas.Proofs.Signature.PlainList

namespace ClassAtlas.Signature

open Nesting (Delimiters Shielded)
open Pattern (IsRun Stops stops_cons isNameChar)
open Text (isWord)

/-- a word that may stand before `class` -/
abbrev Modifier := { w : Text // (∀ c ∈ w, isWord c = true) ∧ w ≠ ("class" : Text) }

def modifiersText (modifiers : List Modifier) : Text := modifiers.flatMap fun w => w.1 ++ [' ']

/-- the scan for a declaration passes over the words before it -/
theorem head?_scanWords_modifiers {text : Text} {m : Match Text} (h : Source.classPattern.first? text = some m)
    (hne : text ≠ []) (modifiers : List Modifier) {previous : Option Char} (hp : Pattern.startsWord previous = true) :
    ((Pattern.scanWords Source.classPattern 0 previous (modifiersText modifiers ++ text)).head?).map Prod.snd =
      some m := by
  induction modifiers generalizing previous with
  | nil =>
    obtain ⟨c, rest, rfl⟩ := List.exists_cons_of_ne_nil hne
    simp [modifiersText, Pattern.scanWords, hp, h]
  | cons w modifiers ih =>
    have htext : modifiersText (w :: modifiers) ++ text = w.1 ++ ' ' :: (modifiersText modifiers ++ text) := by
      simp [modifiersText]
    rw [htext, Pattern.scanWords_word w.2.1 (Source.first?_classPattern_eq_none w.2.1 w.2.2 _)]
    exact ih (by decide)

theorem classMatch?_modifiers {text : Text} {m : Match Text} (h : Source.classPattern.first? text = some m)
    (hne : text ≠ []) (modifiers : List Modifier) : Source.classMatch? (modifiersText modifiers ++ text) = some m :=
  head?_scanWords_modifiers h hne modifiers rfl

/-! ## Declarations -/

/-- a declaration up to the list of bases or the first clause -/
structure Declaration where
  modifiers : List Modifier
  name : Text
  typeParameters : Option Text
  primary : Option Text

/-- the names that a declaration can give -/
def IsName (name : Text) : Prop := IsRun isNameChar name ∧ name.length ≤ 128

namespace Declaration

variable (d : Declaration)

/-- what stands in brackets behind the name -/
def lists : Text := groupText .angle d.typeParameters ++ groupText .round d.primary

def text : Text := modifiersText d.modifiers ++ (("class" : Text) ++ ' ' :: (d.name ++ d.lists))

/-- the brackets inside both lists are paired -/
def IsPaired : Prop := Paired d.typeParameters ∧ Paired d.primary

variable {d} in
theorem IsPaired.shielded (h : d.IsPaired) : Shielded Delimiters.grouping (· ≠ ':') d.lists :=
  (shielded_groupText (by decide) (by decide) h.1).append (shielded_groupText (by decide) (by decide) h.2)

theorem stops_lists {tail : Text} (ht : Stops isWord tail) : Stops isWord (d.lists ++ tail) := by
  rw [lists, List.append_assoc]
  cases d.typeParameters with
  | some inner => exact stops_cons (by decide) _
  | none =>
    cases d.primary with
    | some inner => exact stops_cons (by decide) _
    | none => exact ht

/-- **the name is read**, and the header starts behind it -/
theorem classMatch?_text (hname : IsName d.name) {tail : Text} (ht : Stops isWord tail) :
    ∃ taken, Source.classMatch? (d.text ++ tail) = some ⟨d.name, taken, d.lists ++ tail⟩ := by
  obtain ⟨taken, hfirst⟩ := Source.first?_classPattern hname.1 hname.2 (d.stops_lists ht)
  have htext : d.text ++ tail =
      modifiersText d.modifiers ++ (("class" : Text) ++ ' ' :: (d.name ++ (d.lists ++ tail))) := by
    simp [text]
  rw [htext]
  exact ⟨taken, classMatch?_modifiers hfirst (by simp) d.modifiers⟩

end Declaration

/-- the name and the bases of an outline come from its first line -/
theorem ofLines?_header {declaration : Text} {found : Match Text} (h : Source.classMatch? declaration = some found)
    (body : List Text) : ∃ o, Outline.ofLines? (declaration :: body) = some o ∧ o.name = found.value ∧
      o.bases = Outline.basesOf? found.rest := by
  simp only [Outline.ofLines?, h, Option.bind_eq_bind, Option.bind_some, Option.pure_def, Option.some.injEq]
  exact ⟨_, rfl, rfl, rfl⟩

/-! ## Clauses -/

/-- a clause that constrains a type parameter -/
structure Clause where
  parameter : { w : Text // ∀ c ∈ w, isWord c = true }
  constraints : Text

namespace Clause

/-- the clause up to its colon -/
def opening (c : Clause) : Text := (" where " : Text) ++ c.parameter.1 ++ [' ']

def text (c : Clause) : Text := c.opening ++ ':' :: ' ' :: c.constraints

theorem text_append (c : Clause) (tail : Text) :
    c.text ++ tail = (" where " : Text) ++ (c.parameter.1 ++ ([' '] ++ ':' :: ' ' :: c.constraints ++ tail)) := by
  unfold text opening
  simp only [List.append_assoc]

theorem opening_char (c : Clause) : ∀ d ∈ c.opening, d = ' ' ∨ isWord d = true := by
  intro d hd
  rcases List.mem_append.1 hd with hd | hd
  · rcases List.mem_append.1 hd with hd | hd
    · have hwhere : ∀ d ∈ (" where " : Text), d = ' ' ∨ isWord d = true := by decide
      exact hwhere d hd
    · exact Or.inr (c.parameter.2 d hd)
  · exact Or.inl (List.mem_singleton.1 hd)

theorem shielded_opening (c : Clause) : Shielded Delimiters.grouping (· ≠ ':') c.opening := by
  refine .of_forall fun d hd => ?_
  rcases c.opening_char d hd with rfl | hword
  · exact ⟨Nesting.plain_of_isBlank _ (by decide), by decide⟩
  · refine ⟨Nesting.plain_of_ne (fun q hq => absurd hq (by cases q <;> decide)) fun b _ => ⟨?_, ?_⟩, ?_⟩
    · rintro rfl
      exact absurd hword (by cases b <;> decide)
    · rintro rfl
      exact absurd hword (by cases b <;> decide)
    · rintro rfl
      exact absurd hword (by decide)

end Clause

def clausesText (clauses : List Clause) : Text := clauses.flatMap Clause.text

theorem clausesText_cons (clause : Clause) (clauses : List Clause) (tail : Text) :
    clausesText (clause :: clauses) ++ tail = clause.text ++ (clausesText clauses ++ tail) := List.append_assoc _ _ _

/-- the bracket of the body, if it stands on the same line -/
def endingText (braced : Bool) : Text := if braced then [' ', '{'] else []

theorem stops_clausesText (clauses : List Clause) (braced : Bool) :
    Stops isWord (clausesText clauses ++ endingText braced) := by
  cases clauses with
  | cons clause clauses => exact stops_cons (by decide) _
  | nil =>
    cases braced with
    | true => exact stops_cons (by decide) _
    | false => exact fun c hc => absurd hc (by simp [clausesText, endingText])

/-- a declaration without a list of bases -/
def unlistedLine (d : Declaration) (clauses : List Clause) (braced : Bool) : Text :=
  d.text ++ (clausesText clauses ++ endingText braced)

/-! ## The header -/

/-- there is a colon before which as many angle and round brackets are closed as are opened -/
def HasColon (header : Text) : Prop := ∃ a b, header = a ++ ':' :: b ∧ Nesting.opened a = Nesting.closed a

theorem HasColon.append {a : Text} (h : HasColon a) (b : Text) : HasColon (a ++ b) := by
  obtain ⟨x, y, rfl, hlevel⟩ := h
  exact ⟨x, y ++ b, List.append_assoc _ _ _, hlevel⟩

theorem cut?_eq_none_iff_colon (header : Text) :
    Nesting.cut? Delimiters.grouping [':'] header = none ↔ ¬ HasColon header := by
  rw [Nesting.cut?, if_neg (by simp), Nesting.cutFrom_eq_none_iff]
  refine ⟨fun h hcolon => ?_, fun h a b he hplace => h ?_⟩
  · obtain ⟨a, b, he, hlevel⟩ := hcolon
    exact h a (':' :: b) he ⟨by simp, (Nesting.atTop_grouping a).2 hlevel, by simp⟩
  · obtain ⟨rest, rfl⟩ := List.isPrefixOf_iff_prefix.1 hplace.passes
    exact ⟨a, rest, he, (Nesting.atTop_grouping a).1 hplace.atTop⟩

/-- **there are no bases exactly if the header has no such colon** -/
theorem basesOf?_eq_none_iff (afterName : Text) :
    Outline.basesOf? afterName = none ↔ ¬ HasColon (Outline.headerOf afterName) := by
  rw [Outline.basesOf?, Option.map_eq_none_iff]
  exact cut?_eq_none_iff_colon _

theorem not_hasColon {header : Text} (h : Shielded Delimiters.grouping (· ≠ ':') header) : ¬ HasColon header :=
  (cut?_eq_none_iff_colon header).1 (Nesting.cut?_eq_none h)

theorem headerOf_append {a : Text} (h : '{' ∉ a) (tail : Text) :
    Outline.headerOf (a ++ tail) = a ++ Outline.headerOf tail :=
  List.takeWhile_append_of_pos fun _ hc => bne_iff_ne.2 fun he => h (he ▸ hc)

/-- the header up to the colon of the first clause -/
theorem headerOf_clause {lists : Text} (h : '{' ∉ lists) (clause : Clause) (tail : Text) :
    Outline.headerOf (lists ++ (clause.text ++ tail)) =
      (lists ++ clause.opening) ++ ':' :: ' ' :: Outline.headerOf (clause.constraints ++ tail) := by
  have hopening : '{' ∉ clause.opening := by
    intro hm
    rcases clause.opening_char _ hm with he | hword
    · exact absurd he (by decide)
    · exact absurd hword (by decide)
  rw [headerOf_append h, Clause.text, List.append_assoc, headerOf_append hopening, List.append_assoc]
  rfl

section Paired

variable {lists : Text} (hs : Shielded Delimiters.grouping (· ≠ ':') lists)
include hs

/-- the constraints of the first clause are taken for bases -/
theorem basesOf?_clause (h : '{' ∉ lists) (clause : Clause) (tail : Text) :
    Outline.basesOf? (lists ++ (clause.text ++ tail)) =
      some (Outline.baseTypes (' ' :: Outline.headerOf (clause.constraints ++ tail))) := by
  rw [Outline.basesOf?, Outline.colonCut?, headerOf_clause h,
    Nesting.cut?_append_cons (hs.append clause.shielded_opening)]
  rfl

/-- the header has a colon exactly if it reaches a clause -/
theorem hasColon_iff (clauses : List Clause) (braced : Bool) :
    HasColon (Outline.headerOf (lists ++ (clausesText clauses ++ endingText braced))) ↔
      clauses ≠ [] ∧ '{' ∉ lists := by
  by_cases h : '{' ∈ lists
  · -- the bracket ends the header inside the lists
    obtain ⟨a, b, rfl, ha⟩ := List.eq_append_cons_of_mem h
    have hheader : Outline.headerOf (a ++ '{' :: b ++ (clausesText clauses ++ endingText braced)) = a := by
      rw [List.append_assoc, headerOf_append ha, List.cons_append]
      exact List.append_nil a
    rw [hheader]
    exact ⟨fun hcolon => absurd (hcolon.append _) (not_hasColon hs), fun hn => absurd h hn.2⟩
  · cases clauses with
    | nil =>
      have hend : Shielded Delimiters.grouping (· ≠ ':') (Outline.headerOf (endingText braced)) := by
        cases braced with
        | true => exact .char (Nesting.plain_of_isBlank _ (by decide)) (by decide)
        | false => exact .nil
      rw [clausesText, List.flatMap_nil, List.nil_append, headerOf_append h]
      exact ⟨fun hcolon => absurd hcolon (not_hasColon (hs.append hend)), fun hn => absurd rfl hn.1⟩
    | cons clause clauses =>
      have hlevel := balanced_of_shielded (hs.append clause.shielded_opening)
      rw [clausesText_cons, headerOf_clause h]
      exact ⟨fun _ => ⟨by simp, h⟩, fun _ => ⟨_, _, rfl, hlevel⟩⟩

end Paired

theorem listEnd_headerOf (clauses : List Clause) (braced : Bool) :
    ListEnd (Outline.headerOf (clausesText clauses ++ endingText braced)) := by
  cases clauses with
  | cons clause clauses =>
    have hwhere : '{' ∉ (" where " : Text) := by decide
    have hheader := headerOf_append hwhere
    rw [clausesText_cons, Clause.text_append, hheader]
    exact .clause _
  | nil =>
    cases braced with
    | true => exact .blanks Text.space
    | false => exact .blanks Text.nothing

/-- **A declaration without a list of bases has none exactly if its header has no colon outside brackets**, that is, if
the brackets in its lists are paired, exactly if the header reaches no clause. Otherwise the constraints of the first
clause are its bases. Only the names of `IsName` are declared. -/
theorem ofLines?_unlisted (d : Declaration) (clauses : List Clause) (braced : Bool) (body : List Text) :
    (IsName d.name → ∃ o, Outline.ofLines? (unlistedLine d clauses braced :: body) = some o ∧ o.name = d.name ∧
      (o.bases = none ↔ ¬ HasColon (Outline.headerOf (d.lists ++ (clausesText clauses ++ endingText braced)))) ∧
      (d.IsPaired → (o.bases = none ↔ clauses = [] ∨ '{' ∈ d.lists) ∧
        ∀ parameter constraints more (list : BaseList), clauses = ⟨parameter, constraints⟩ :: more →
          ' ' :: constraints = list.text → list.IsPlain → '{' ∉ d.lists → o.bases = some list.trees)) ∧
    ∀ o, Outline.ofLines? (unlistedLine d clauses braced :: body) = some o → o.name = d.name → IsName d.name := by
  refine ⟨fun hname => ?_, fun o ho he => ?_⟩
  · obtain ⟨taken, hfound⟩ := d.classMatch?_text hname (stops_clausesText clauses braced)
    obtain ⟨o, ho, hvalue, hread⟩ := ofLines?_header hfound body
    have hnone : o.bases = none ↔ _ := hread ▸ basesOf?_eq_none_iff _
    refine ⟨o, ho, hvalue, hnone, fun hpaired => ⟨?_, ?_⟩⟩
    · rw [hnone, hasColon_iff hpaired.shielded, not_and_or, not_not, not_not]
    · intro parameter constraints more list hclauses htext hplain hcurly
      have hconstraints : '{' ∉ constraints := fun hm =>
        list.curly_not_mem_text (htext ▸ List.mem_cons_of_mem ' ' hm)
      have hfirst := basesOf?_clause hpaired.shielded hcurly ⟨parameter, constraints⟩
        (clausesText more ++ endingText braced)
      have hend := listEnd_headerOf more braced
      rw [hread, hclauses, clausesText_cons, hfirst, headerOf_append hconstraints, ← List.cons_append, htext,
        BaseList.baseTypes_text (BaseList.isSeparated_of_plain hplain hend) hend]
  · obtain ⟨found, hfound, hvalue⟩ := Option.map_eq_some_iff.1 (Source.name_of_ofLines? ho)
    rw [← he, ← hvalue]
    exact Source.isRun_of_classMatch? hfound

/-- `class Repo<T>` -/
def repo : Declaration where
  modifiers := []
  name := "Repo"
  typeParameters := some "T"
  primary := none

theorem isPaired_repo : repo.IsPaired := by
  refine ⟨fun inner hinner => ?_, paired_none⟩
  obtain rfl := Option.mem_some.1 hinner
  exact .char (Nesting.plain_of_ne (fun q _ => by cases q <;> decide) fun b _ => by cases b <;> decide) trivial

/-- `class` as a constraint -/
def classConstraint : Base where
  before := Text.space
  shape := .plain ⟨"class", by decide⟩
  named := rfl
  marks := []
  arguments := none
  after := Text.nothing
  unbraced := by decide

theorem isPlain_classConstraint : classConstraint.IsPlain := ⟨by decide, paired_none, by decide⟩

/-- `T` is constrained to be a reference type -/
def classClause : Clause where
  parameter := ⟨['T'], by decide⟩
  constraints := "class"

/-- the constraint of `class Repo<T> where T : class {` is read as a base, and `class Repo<T> {` has no bases -/
theorem ofLines?_unlisted_repo :
    IsName repo.name ∧ repo.IsPaired ∧
      unlistedLine repo [classClause] true = ("class Repo<T> where T : class \x7b" : Text) ∧
      (∃ o, Outline.ofLines? [unlistedLine repo [classClause] true] = some o ∧ o.name = ("Repo" : Text) ∧
        o.bases = some [.leaf "class"]) ∧
      ∃ o, Outline.ofLines? [unlistedLine repo [] true] = some o ∧ o.name = ("Repo" : Text) ∧ o.bases = none := by
  have hname : IsName repo.name := ⟨⟨'R', ['e', 'p', 'o'], by decide, by decide, by decide⟩, by decide⟩
  obtain ⟨o, ho, hvalue, -, hread⟩ := (ofLines?_unlisted repo [classClause] true []).1 hname
  obtain ⟨o', ho', hvalue', -, hread'⟩ := (ofLines?_unlisted repo [] true []).1 hname
  have hplain : BaseList.IsPlain ⟨[], classConstraint⟩ := List.forall_mem_singleton.2 isPlain_classConstraint
  have hclass := (hread isPaired_repo).2 ⟨['T'], by decide⟩ "class" [] ⟨[], classConstraint⟩ rfl rfl hplain (by decide)
  have hnone := (hread' isPaired_repo).1.2 (Or.inl rfl)
  exact ⟨hname, isPaired_repo, by decide, ⟨o, ho, hvalue, hclass⟩, o', ho', hvalue', hnone⟩

/-- a declaration without a list of bases may have bases all the same: `class Repo<T> where T : class {` -/
theorem constraint_read_as_base :
    ¬ ∀ (d : Declaration) (clauses : List Clause) (braced : Bool) (body : List Text),
      (Outline.ofLines? (unlistedLine d clauses braced :: body)).all (·.bases.isNone) = true := by
  intro h
  have hnone := h repo [classClause] true ["\x7d"]
  exact absurd hnone (by decide +kernel)

end ClassAtlas.Signature
