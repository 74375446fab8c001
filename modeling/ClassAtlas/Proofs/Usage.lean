/-
Texts that create nothing and call nothing.

Without the word `new` no object is created. A static call has a parenthesis after a point and a name; where every
parenthesis comes after a blank and a name, there is no such call.
-/
import ClassAtlas.Outline.Usage
import ClassAtlas.Proofs.Member
import ClassAtlas.Proofs.Word

namespace ClassAtlas.Outline

open Pattern

/-! ## Creation -/

theorem mem_creationPattern {s t r type : Text} (h : ⟨type, t, r⟩ ∈ creationPattern s) :
    ∃ gap rest, s = ("new" : Text) ++ gap ++ rest ∧ gap ≠ [] ∧ ∀ c ∈ gap, Text.isBlank c = true := by
  obtain ⟨_, _, s₁, _, hnew, h₁, -⟩ := mem_bind.1 h
  obtain ⟨-, rfl⟩ := mem_literal.1 hnew
  obtain ⟨_, gap, rest, _, hgap, -, -⟩ := mem_bind.1 h₁
  obtain ⟨rfl, hblank, hlen⟩ := mem_spanAll hgap
  exact ⟨gap, rest, by simp, List.ne_nil_of_length_pos hlen, hblank⟩

theorem createdIn_eq_nil {text : Text} (h : ("new" : Text) ∉ Text.words text) : createdIn text = [] := by
  have hnone : creationPattern.atWordStarts text = [] :=
    atWordStarts_eq_nil (by decide) (fun _ _ hm => mem_creationPattern hm) h
  simp [createdIn, hnone]

/-! ## Calls -/

/-- where the last name of a text starts, if it ends with one, is determined -/
theorem last_break_unique {a b d e : Text} {c c' : Char} (hd : ∀ x ∈ d, isNameChar x = true)
    (he : ∀ x ∈ e, isNameChar x = true) (hc : isNameChar c = false) (hc' : isNameChar c' = false)
    (h : a ++ c :: d = b ++ c' :: e) : c = c' ∧ d = e := by
  have hrev : d.reverse ++ c :: a.reverse = e.reverse ++ c' :: b.reverse := by simpa using congrArg List.reverse h
  have htake := congrArg (List.takeWhile isNameChar) hrev
  have hdrop := congrArg (List.dropWhile isNameChar) hrev
  rw [Text.takeWhile_append_cons (by simpa using hd) hc, Text.takeWhile_append_cons (by simpa using he) hc'] at htake
  rw [Text.dropWhile_append_cons (by simpa using hd) hc, Text.dropWhile_append_cons (by simpa using he) hc'] at hdrop
  exact ⟨(List.cons.inj hdrop).1, List.reverse_inj.1 htake⟩

/-- what may stand before the parenthesis of a call: no name right before it, or one after a point -/
def OpensCall (u : Text) : Prop :=
  ∃ a c d, u = a ++ c :: d ∧ isNameChar c = false ∧ (∀ x ∈ d, isNameChar x = true) ∧ (d = [] ∨ c = '.')

theorem OpensCall.point (a : Text) {d : Text} (hd : ∀ x ∈ d, isNameChar x = true) : OpensCall (a ++ '.' :: d) :=
  ⟨a, '.', d, rfl, by decide, hd, .inr rfl⟩

theorem OpensCall.concat (u : Text) {c : Char} (hc : isNameChar c = false) : OpensCall (u ++ [c]) :=
  ⟨u, c, [], rfl, hc, by simp, .inl rfl⟩

theorem OpensCall.blanks {u gap : Text} (hu : OpensCall u) (hgap : ∀ c ∈ gap, Text.isBlank c = true) :
    OpensCall (u ++ gap) := by
  rcases List.eq_nil_or_concat gap with rfl | ⟨gap, c, rfl⟩
  · rwa [List.append_nil]
  · rw [List.concat_eq_append, ← List.append_assoc]
    refine .concat _ ?_
    cases hc : isNameChar c with
    | false => rfl
    | true =>
      have hblank := hgap c (by simp)
      rw [Text.not_isBlank_of_isNameChar hc] at hblank
      contradiction

theorem OpensCall.angleList {u s t r : Text} {test : Char → Bool} {most : Nat} {x : Unit} (hu : OpensCall u)
    (h : ⟨x, t, r⟩ ∈ optional (angleList test most) s) : s = t ++ r ∧ OpensCall (u ++ t) := by
  rcases mem_optional.1 h with h | ⟨rfl, rfl⟩
  · obtain ⟨_, _, s₁, _, hopen, h₁, rfl⟩ := mem_bind.1 h
    obtain ⟨c, -, rfl, rfl⟩ := mem_satisfy.1 hopen
    obtain ⟨_, inside, s₂, _, hinside, hclose, rfl⟩ := mem_bind.1 h₁
    obtain ⟨rfl, -⟩ := mem_span hinside
    obtain ⟨d, hd, rfl, rfl⟩ := mem_satisfy.1 hclose
    obtain rfl : d = '>' := by simpa using hd
    refine ⟨by simp, ?_⟩
    simpa using OpensCall.concat (u ++ c :: inside) (c := '>') (by decide)
  · simpa using hu

theorem mem_callPattern {s t r type : Text} (h : ⟨type, t, r⟩ ∈ callPattern s) :
    ∃ u rest, s = u ++ '(' :: rest ∧ OpensCall u := by
  obtain ⟨_, a, s₁, _, htype, h₁, -⟩ := mem_bind.1 h
  obtain rfl := ((sound_satisfy _).bind fun _ => sound_span _ _ _).capture _ _ _ _ htype
  obtain ⟨_, _, s₂, _, hpoint, h₂, -⟩ := mem_bind.1 h₁
  obtain ⟨p, hp, -, rfl⟩ := mem_satisfy.1 hpoint
  obtain rfl : p = '.' := by simpa using hp
  obtain ⟨_, d, s₃, _, hname, h₃, -⟩ := mem_bind.1 h₂
  obtain ⟨rfl, hd, -⟩ := mem_identifier hname
  obtain ⟨_, gap₁, s₄, _, hgap₁, h₄, -⟩ := mem_bind.1 h₃
  obtain ⟨rfl, hblank₁, -⟩ := mem_spanAll hgap₁
  obtain ⟨_, angles, s₅, _, hangles, h₅, -⟩ := mem_bind.1 h₄
  obtain ⟨rfl, hopens⟩ := ((OpensCall.point a hd.nameChars).blanks hblank₁).angleList hangles
  obtain ⟨_, gap₂, s₆, _, hgap₂, h₆, -⟩ := mem_bind.1 h₅
  obtain ⟨rfl, hblank₂, -⟩ := mem_spanAll hgap₂
  obtain ⟨_, _, s₇, _, hparen, -, -⟩ := mem_bind.1 h₆
  obtain ⟨q, hq, -, rfl⟩ := mem_satisfy.1 hparen
  obtain rfl : q = '(' := by simpa using hq
  exact ⟨_, s₇, by simp, hopens.blanks hblank₂⟩

/-- a text without static calls: before every parenthesis stand a blank and a name -/
def CallFree (text : Text) : Prop :=
  ∀ u v, text = u ++ '(' :: v → ∃ a d, u = a ++ ' ' :: d ∧ d ≠ [] ∧ ∀ x ∈ d, isNameChar x = true

theorem calledIn_eq_nil {text : Text} (h : CallFree text) : calledIn text = [] := by
  have hnone : callPattern.atWordStarts text = [] := by
    refine List.eq_nil_iff_forall_not_mem.2 fun found hfound => ?_
    obtain ⟨a, b, rfl, hb, -, -⟩ := mem_atWordStarts hfound
    obtain ⟨u, rest, rfl, p, c, d, rfl, hc, hd, hcases⟩ := mem_callPattern (mem_of_first? hb)
    obtain ⟨q, e, htext, hne, he⟩ := h (a ++ (p ++ c :: d)) rest (by simp)
    rw [← List.append_assoc] at htext
    have hbreak := last_break_unique hd he hc (by decide) htext
    rcases hcases with rfl | rfl
    · exact hne hbreak.2.symm
    · exact absurd hbreak.1 (by decide)
  simp [calledIn, hnone]

theorem callFree_of_not_mem {s : Text} (h : '(' ∉ s) : CallFree s := by
  rintro u v rfl
  exact absurd (by simp) h

/-- the declaration of a method is no call -/
theorem callFree_declaration {a d : Text} (ha : '(' ∉ a) (hne : d ≠ []) (hd : ∀ x ∈ d, isNameChar x = true) :
    CallFree (a ++ ' ' :: d ++ ['(']) := by
  intro u v h
  have hd' : '(' ∉ d := fun hm => absurd (hd _ hm) (by decide)
  have hu : u = a ++ ' ' :: d := Text.eq_of_append_cons_eq_concat h.symm (by simp [ha, hd'])
  exact ⟨a, d, hu, hne, hd⟩

theorem CallFree.append {a b : Text} (ha : CallFree a) (hb : CallFree b) : CallFree (a ++ b) := by
  intro u v h
  rcases List.append_eq_append_iff.1 h with ⟨between, rfl, hafter⟩ | ⟨between, hbefore, hafter⟩
  · obtain ⟨p, d, rfl, hne, hd⟩ := hb between v hafter
    exact ⟨a ++ p, d, by simp, hne, hd⟩
  · cases between with
    | nil =>
      obtain ⟨p, d, hempty, -, -⟩ := hb [] v (by simpa using hafter.symm)
      simp at hempty
    | cons c between =>
      obtain ⟨rfl, -⟩ := List.cons.inj hafter
      exact ha u between hbefore

theorem CallFree.intercalate {c : Char} (hc : c ≠ '(') {pieces : List Text} (h : ∀ s ∈ pieces, CallFree s) :
    CallFree (List.intercalate [c] pieces) := by
  induction pieces with
  | nil => exact callFree_of_not_mem (by simp)
  | cons piece pieces ih =>
    have hpiece := h piece List.mem_cons_self
    cases pieces with
    | nil => rwa [List.intercalate_singleton]
    | cons next pieces =>
      have hbetween : CallFree [c] := callFree_of_not_mem (by simpa using hc.symm)
      rw [List.intercalate_cons_cons]
      exact (hpiece.append hbetween).append (ih fun s hs => h s (List.mem_cons_of_mem piece hs))

end ClassAtlas.Outline
