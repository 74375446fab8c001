/-
Written headers are read back: without a primary constructor, and with the bases that were listed.
-/
import ClassAtlas.Proofs.Signature.Header
import ClassAtlas.Proofs.Written.Parameter

namespace ClassAtlas.Written

open Nesting (Delimiters Shielded)

/-! ## The bases -/

theorem isTypeText_bases (bases : List Nominal) :
    IsTypeText (List.intercalate [',', ' '] (bases.map Nominal.render)) := by
  refine IsTypeText.intercalate fun q hq => ?_
  obtain ⟨t, -, rfl⟩ := List.mem_map.1 hq
  exact t.isTypeText

theorem Nominal.isNamed_shape (t : Nominal) : Signature.isNamed t.shape = true := by
  have hfits := t.fits
  cases hs : t.shape with
  | tuple elements =>
    rw [hs] at hfits
    contradiction
  | _ => rfl

theorem Nominal.ne_where (t : Nominal) : t.render ≠ ("where" : Text) := by
  intro he
  have hword : ("where" : Text) ∉ Text.words t.render := t.isTypeText.clean.not_mem_words (by decide)
  rw [he] at hword
  exact hword (by decide)

/-- a name behind a blank -/
def Nominal.base (t : Nominal) : Signature.Base where
  before := Text.space
  shape := t.shape
  named := t.isNamed_shape
  marks := []
  arguments := none
  after := Text.nothing
  unbraced := ⟨fun hm => absurd (t.isTypeText.chars _ hm) (by decide), by simp⟩

/-- with no marks and no arguments, a name is written alone -/
theorem Nominal.core_base (t : Nominal) : t.base.core = t.render := (List.append_nil _).trans (List.append_nil _)

theorem Nominal.text_base (t : Nominal) : t.base.text = ' ' :: t.render := by
  rw [Signature.Base.text_eq, t.core_base]
  exact congrArg (' ' :: ·) (List.append_nil t.render)

theorem Nominal.isPlain_base (t : Nominal) : t.base.IsPlain where
  simple := List.forall_mem_nil _
  paired := Signature.paired_none
  ne_where := t.core_base ▸ t.ne_where

/-- a blank stands before each base -/
theorem text_bases (front : List Nominal) (last : Nominal) :
    ' ' :: List.intercalate [',', ' '] ((front ++ [last]).map Nominal.render) =
      Signature.BaseList.text ⟨front.map Nominal.base, last.base⟩ := by
  induction front with
  | nil =>
    rw [List.nil_append, List.map_singleton, List.intercalate_singleton, ← last.text_base]
    rfl
  | cons t front ih =>
    obtain ⟨next, others, hnext⟩ : ∃ next others, (front ++ [last]).map Nominal.render = next :: others :=
      List.exists_cons_of_ne_nil (by simp)
    have htext : Signature.BaseList.text ⟨(t :: front).map Nominal.base, last.base⟩ =
        t.base.text ++ ',' :: Signature.BaseList.text ⟨front.map Nominal.base, last.base⟩ :=
      Signature.frontText_cons _ _ _
    rw [htext, ← ih, t.text_base, List.cons_append, List.map_cons, hnext, List.intercalate_cons_cons]
    simp

theorem baseTypes_text {bases : List Nominal} (hne : bases ≠ []) :
    Outline.baseTypes (' ' :: List.intercalate [',', ' '] (bases.map Nominal.render) ++ [' ']) =
      (bases.map Nominal.tree).filter (!Outline.isRootBase ·) := by
  obtain ⟨front, last, rfl⟩ : ∃ front last, bases = front ++ [last] :=
    ⟨_, _, (List.dropLast_concat_getLast hne).symm⟩
  have hplain : Signature.BaseList.IsPlain ⟨front.map Nominal.base, last.base⟩ := by
    intro b hb
    obtain ⟨t, rfl⟩ : ∃ t : Nominal, t.base = b := by
      rcases List.mem_append.1 hb with hb | hb
      · obtain ⟨t, -, ht⟩ := List.mem_map.1 hb
        exact ⟨t, ht⟩
      · exact ⟨last, (List.mem_singleton.1 hb).symm⟩
    exact t.isPlain_base
  have hend : Signature.ListEnd [' '] := .blanks Text.space
  rw [text_bases, Signature.BaseList.baseTypes_text (Signature.BaseList.isSeparated_of_plain hplain hend) hend,
    Signature.BaseList.trees, List.map_append, List.map_append, List.map_map]
  rfl

/-! ## The header -/

theorem curly_not_mem_bases (bases : List Nominal) : '{' ∉ basesText bases := by
  intro hm
  cases bases with
  | nil => exact List.not_mem_nil hm
  | cons t bases =>
    obtain hm | hm : '{' ∈ [' ', ':', ' '] ∨ '{' ∈ List.intercalate [',', ' '] ((t :: bases).map Nominal.render) :=
      List.mem_append.1 hm
    · exact absurd hm (by decide)
    · exact absurd ((isTypeText_bases (t :: bases)).chars _ hm) (by decide)

/-- the header as a scan from the left meets it -/
theorem headerOf_bases (bases : List Nominal) :
    Outline.headerOf (basesText bases ++ [' ', '{']) = basesText bases ++ [' '] :=
  Signature.headerOf_append (curly_not_mem_bases bases) _

theorem colonCut?_bases (bases : List Nominal) :
    Outline.colonCut? (basesText bases ++ [' ', '{']) = match bases with
      | [] => none
      | bases => some ([' '], ':' :: ' ' :: List.intercalate [',', ' '] (bases.map Nominal.render) ++ [' ']) := by
  have hspace : Shielded Delimiters.grouping (· ≠ ':') [' '] :=
    .char (Nesting.plain_of_isBlank _ (by decide)) (by decide)
  rw [Outline.colonCut?, headerOf_bases]
  cases bases with
  | nil => exact Nesting.cut?_eq_none hspace
  | cons t bases => exact Nesting.cut?_append_cons hspace _

/-- **the bases are read back** -/
theorem basesOf?_basesText (bases : List Nominal) :
    Outline.basesOf? (basesText bases ++ [' ', '{']) = basesOf? bases := by
  rw [Outline.basesOf?, colonCut?_bases]
  cases bases with
  | nil => rfl
  | cons t bases =>
    simp only [Option.map_some, basesOf?, List.cons_append, List.drop_succ_cons, List.drop_zero]
    rw [← baseTypes_text (by simp)]
    rfl

/-- there is no primary constructor -/
theorem primaryParameters?_basesText (bases : List Nominal) :
    Outline.primaryParameters? (basesText bases ++ [' ', '{']) = none := by
  have hbefore : Outline.beforeColon (basesText bases ++ [' ', '{']) = [' '] := by
    rw [Outline.beforeColon, colonCut?_bases]
    cases bases with
    | nil => exact headerOf_bases []
    | cons t bases => rfl
  rw [Outline.primaryParameters?, hbefore]
  rfl

end ClassAtlas.Written
