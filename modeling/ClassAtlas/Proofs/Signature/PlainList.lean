/-
Lists of bases whose brackets are paired.

Outside its brackets a base with paired brackets has no comma, if no rank of it has one, and no blank. So ` where `
could only be found in it where the whole base is that word. A list of other bases is separated, whatever blanks stand
in it and whatever may come behind it (`isSeparated_of_plain`).
-/
import ClassAtlas.Proofs.Name
import ClassAtlas.Proofs.Signature.BaseList

namespace ClassAtlas.Signature

open Nesting (Delimiters Shielded State closed opened)
open Pattern (Stops)
open TypeTree (isNamePart marksText)

namespace Base

/-- the base without the blanks around it -/
def core (b : Base) : Text := b.typeText ++ groupText .round b.arguments

/-- paired brackets, ranks without commas, and not the word that ends a list -/
structure IsPlain (b : Base) : Prop where
  simple : ∀ m ∈ b.marks, m.isSimple = true
  paired : Paired b.arguments
  ne_where : b.core ≠ ("where" : Text)

variable {b : Base}

theorem text_eq (b : Base) : b.text = b.before.1 ++ (b.core ++ b.after.1) := by
  simp [text, opening, tail, core]

/-- outside its brackets a plain base has no commas and no blanks -/
theorem IsPlain.shielded_core (h : b.IsPlain) :
    Shielded Delimiters.grouping (fun c => c ≠ ',' ∧ Text.isBlank c = false) b.core := by
  have hshape : Shielded Delimiters.grouping (fun c => c ≠ ',' ∧ Text.isBlank c = false) b.shape.render :=
    b.shape.shielded (TypeTree.sees_grouping (fun _ hcomma hblank => ⟨hcomma, hblank⟩) b.shape.render)
  have hmarks : Shielded Delimiters.grouping (fun c => c ≠ ',' ∧ Text.isBlank c = false) (marksText b.marks) :=
    TypeTree.shielded_marksText (by decide) (Or.inl h.simple)
  exact (hshape.append hmarks).append (shielded_groupText (by decide) (by decide) h.paired)

theorem IsPlain.shielded_text (h : b.IsPlain) : Shielded Delimiters.grouping (· ≠ ',') b.text := by
  have hblanks : ∀ blanks : Text.Blanks, Shielded Delimiters.grouping (· ≠ ',') blanks.1 :=
    .of_blanks fun c hc he => absurd (he ▸ hc) (by decide)
  rw [text_eq]
  exact (hblanks b.before).append ((h.shielded_core.mono fun _ hc => hc.1).append (hblanks b.after))

theorem IsPlain.balanced_text (h : b.IsPlain) : opened b.text = closed b.text := balanced_of_shielded h.shielded_text

theorem IsPlain.comma_not_outside (h : b.IsPlain) {x y : Text} (he : b.text = x ++ ',' :: y) : opened x ≠ closed x :=
  fun hx => (h.shielded_text.passable {} rfl rfl).top x ',' y he ((Nesting.atTop_grouping x).2 hx) rfl

/-! ## The word that ends a list -/

/-- the name at the start of a base, and what comes behind it -/
theorem exists_name_core (b : Base) : ∃ name behind, b.core = name ++ behind ∧
    (∀ c ∈ name, isNamePart c = true) ∧ Stops isNamePart behind ∧ Stops Text.isBlank behind := by
  have hbehind : ∀ c rest, c = '<' ∨ c = '?' ∨ c = '[' ∨ c = '(' →
      Stops isNamePart (c :: rest) ∧ Stops Text.isBlank (c :: rest) := by
    intro c rest hc
    rcases hc with rfl | rfl | rfl | rfl <;> exact ⟨Pattern.stops_cons (by decide) _, Pattern.stops_cons (by decide) _⟩
  cases hshape : b.shape with
  | tuple elements =>
    have hnamed := b.named
    rw [hshape] at hnamed
    contradiction
  | generic name list =>
    refine ⟨name.1, '<' :: (list.render ++ '>' :: (marksText b.marks ++ groupText .round b.arguments)), ?_, name.2.2,
      hbehind _ _ (Or.inl rfl)⟩
    simp [core, typeText, hshape, TypeTree.Shape.render]
  | plain name =>
    refine ⟨name.1, marksText b.marks ++ groupText .round b.arguments, ?_, name.2.2, ?_⟩
    · rw [core, typeText, hshape, List.append_assoc]
      rfl
    · cases b.marks with
      | cons mark marks =>
        cases mark with
        | nullable => exact hbehind _ _ (Or.inr (Or.inl rfl))
        | rank commas => exact hbehind _ _ (Or.inr (Or.inr (Or.inl rfl)))
      | nil =>
        cases b.arguments with
        | some inner => exact hbehind _ _ (Or.inr (Or.inr (Or.inr rfl)))
        | none => exact ⟨Pattern.stops_nil _, Pattern.stops_nil _⟩

/-- the word starts a base only if it is the base -/
theorem IsPlain.not_where (h : b.IsPlain) {rest : Text} (hrest : Stops isNamePart rest) :
    ¬ ("where " : Text) <+: b.core ++ rest := by
  rintro ⟨more, htext⟩
  obtain ⟨name, behind, hcore, hname, hpart, hblank⟩ := b.exists_name_core
  have hwhere : ("where " : Text) ++ more = ("where" : Text) ++ ' ' :: more := rfl
  rw [hcore, List.append_assoc, hwhere] at htext
  -- both sides start with a name, which ends at the same place
  have hstop : Stops isNamePart (behind ++ rest) := by
    cases behind with
    | nil => exact hrest
    | cons c behind => exact hpart
  have hleft : (name ++ (behind ++ rest)).takeWhile isNamePart = name := by
    rw [List.takeWhile_append_of_pos hname, hstop.takeWhile, List.append_nil]
  have hright : (("where" : Text) ++ ' ' :: more).takeWhile isNamePart = ("where" : Text) :=
    Text.takeWhile_append_cons (by decide) (by decide)
  obtain rfl : name = ("where" : Text) := by rw [← hleft, ← htext, hright]
  have hnext : ' ' :: more = behind ++ rest := List.append_cancel_left htext
  cases behind with
  | nil => exact h.ne_where (hcore.trans (List.append_nil _))
  | cons c behind =>
    obtain ⟨rfl, -⟩ := List.cons_eq_cons.1 hnext
    exact absurd (hblank ' ' rfl) (by decide)

end Base

/-- what does not start with the word, nor with a blank, before which a name could go on -/
theorem not_isPrefix_blanks {blanks : Text} (hb : ∀ c ∈ blanks, Text.isBlank c = true) {rest : Text}
    (h : ¬ ("where " : Text) <+: rest) : ¬ ("where " : Text) <+: blanks ++ rest := by
  cases blanks with
  | nil => exact h
  | cons c blanks =>
    intro hword
    obtain ⟨rfl, -⟩ := List.cons_prefix_cons.1 hword
    exact absurd (hb _ List.mem_cons_self) (by decide)

theorem stops_blanks (blanks : Text.Blanks) {rest : Text} (h : Stops isNamePart rest) :
    Stops isNamePart (blanks.1 ++ rest) := by
  obtain ⟨blanks, hblanks⟩ := blanks
  cases blanks with
  | nil => exact h
  | cons c blanks =>
    have hc := hblanks c List.mem_cons_self
    exact Pattern.stops_cons (by simp [isNamePart, hc]) _

/-- outside the brackets of a plain base the word that ends a list does not start -/
theorem Base.IsPlain.word_not_outside {b : Base} (h : b.IsPlain) {rest : Text} (hr : Stops isNamePart rest)
    (hw : ¬ ("where " : Text) <+: rest) {x y : Text} (he : b.text ++ rest = x ++ y) (hx : opened x = closed x)
    (hlt : x.length < b.text.length) : ¬ (" where " : Text) <+: y := by
  intro hword
  have hcons : (" where " : Text) = ' ' :: ("where " : Text) := rfl
  rw [hcons] at hword
  obtain ⟨z, rfl⟩ : ∃ z, y = ' ' :: z := by
    obtain ⟨more, rfl⟩ := hword
    exact ⟨_, rfl⟩
  obtain ⟨-, hword⟩ := List.cons_prefix_cons.1 hword
  have htext : b.before.1 ++ (b.core ++ (b.after.1 ++ rest)) = x ++ ' ' :: z := by
    rw [← he, b.text_eq]
    simp
  rcases Text.append_eq_append_cons htext with ⟨w, hbefore, rfl⟩ | ⟨u, rfl, hcore⟩
  · -- the blank is one of those before the base
    have hblanks : ∀ c ∈ w, Text.isBlank c = true := fun c hc => b.before.2 c (by simp [hbefore, hc])
    exact not_isPrefix_blanks hblanks (h.not_where (stops_blanks b.after hr)) hword
  · rcases Text.append_eq_append_cons hcore with ⟨w, hw', -⟩ | ⟨v, rfl, hafter⟩
    · -- it stands in the base, outside brackets
      have hu : opened u = closed u := by
        rw [Nesting.opened_append, Nesting.closed_append, balanced_blanks] at hx
        omega
      have hsolid := (h.shielded_core.passable {} rfl rfl).top u ' ' w hw' ((Nesting.atTop_grouping u).2 hu)
      exact absurd hsolid.2 (by decide)
    · rcases Text.append_eq_append_cons hafter with ⟨w, hw', rfl⟩ | ⟨w, rfl, -⟩
      · have hblanks : ∀ c ∈ w, Text.isBlank c = true := fun c hc => b.after.2 c (by simp [hw', hc])
        exact not_isPrefix_blanks hblanks hw hword
      · rw [b.text_eq] at hlt
        simp only [List.length_append] at hlt
        omega

/-! ## The list -/

theorem Base.IsPlain.isEnclosed {b : Base} (h : b.IsPlain) : b.IsEnclosed := by
  refine ⟨h.balanced_text, fun i hi => ⟨fun hcomma => ?_, fun hword => ?_⟩⟩
  · obtain ⟨x, y, he, -, ⟨z, rfl⟩, hx⟩ := hcomma.exists_append (by decide)
    exact h.comma_not_outside he hx
  · obtain ⟨x, y, he, rfl, hy, hx⟩ := hword.exists_append (by decide)
    exact h.word_not_outside (Pattern.stops_nil _) (by decide) ((List.append_nil _).trans he) hx hi hy

theorem ListEnd.stops {rest : Text} (h : ListEnd rest) : Stops isNamePart rest ∧ ¬ ("where " : Text) <+: rest := by
  cases h with
  | blanks after =>
    have hstop := stops_blanks after (Pattern.stops_nil _)
    have hword : ¬ ("where " : Text) <+: after.1 ++ [] := not_isPrefix_blanks after.2 (by decide)
    rw [List.append_nil] at hstop hword
    exact ⟨hstop, hword⟩
  | clause rest =>
    refine ⟨Pattern.stops_cons (by decide) _, fun hword => ?_⟩
    exact absurd (List.cons_prefix_cons.1 hword).1 (by decide)

theorem Base.IsPlain.endsList {b : Base} (h : b.IsPlain) {rest : Text} (hr : ListEnd rest) : b.EndsList rest := by
  refine fun i hi => ⟨fun hword => ?_, fun hcomma => ?_⟩
  · obtain ⟨x, y, he, rfl, hy, hx⟩ := hword.exists_append (by decide)
    refine Nat.le_of_not_lt fun hlt => ?_
    have hlength : b.opening.length ≤ b.text.length := by simp [text]
    exact h.word_not_outside hr.stops.1 hr.stops.2 he hx (Nat.lt_of_lt_of_le hlt hlength) hy
  · obtain ⟨x, y, he, rfl, ⟨z, rfl⟩, hx⟩ := hcomma.exists_append (by decide)
    rcases Text.append_eq_append_cons he with ⟨w, hw, -⟩ | ⟨w, rfl, hw⟩
    · exact absurd hx (h.comma_not_outside hw)
    · cases hr with
      | blanks after => exact absurd (after.2 ',' (by simp [hw])) (by decide)
      | clause rest =>
        refine ⟨b.text.length, ?_, .of_append rfl (List.prefix_append _ _) h.balanced_text⟩
        have hne : w ≠ [] := by
          rintro rfl
          exact absurd (List.cons_eq_cons.1 hw).1 (by decide)
        rw [List.length_append]
        exact Nat.lt_add_of_pos_right (List.length_pos_iff.2 hne)

namespace BaseList

def IsPlain (l : BaseList) : Prop := ∀ b ∈ l.front ++ [l.last], b.IsPlain

/-- **a list of plain bases is separated** -/
theorem isSeparated_of_plain {l : BaseList} (h : l.IsPlain) {rest : Text} (hr : ListEnd rest) : l.IsSeparated rest :=
  ⟨fun b hb => (h b (List.mem_append_left _ hb)).isEnclosed, (h l.last (by simp)).endsList hr⟩

end BaseList

end ClassAtlas.Signature
