/-
The name of a type, and what does not change it.

Blanks, question marks and array ranks behind a type do not change its name (`nominalName_decorations`), and neither do
type arguments and all that follows them (`nominalName_arguments`). The reasons are that trimming a text at its end is
removing marks that are blanks, so that only blanks in front are to be looked at, and that nothing of a decoration and
no `<` can complete a global mark.

So a tree has the name of the expression it is read from, whether the name is taken before reading or after it. Only
a tuple has no name. In an object creation no tuple is named, so types that every program has may be left out before
the creations are read.
-/
import ClassAtlas.Outline.Usage
import ClassAtlas.Proofs.Name
import ClassAtlas.Proofs.ScanState
import ClassAtlas.Proofs.TypeTree.Ranks
import ClassAtlas.Proofs.Word

namespace ClassAtlas.TypeTree

open Nesting (Delimiters)

/-- what may stand behind a type without changing its name: a blank, a question mark, or an array rank with commas and
blanks in it -/
inductive Decoration where
  | blank (c : { c : Char // Text.isBlank c = true })
  | nullable
  | rank (inner : { s : Text // ∀ c ∈ s, c = ',' ∨ Text.isBlank c = true })

def Decoration.text : Decoration → Text
  | blank c => [c.1]
  | nullable => ['?']
  | rank inner => '[' :: inner.1 ++ [']']

def decorationsText (ds : List Decoration) : Text := ds.flatMap Decoration.text

/-- a list in parentheses: the first one is closed by the last character and not before -/
def IsTuple (s : Text) : Prop :=
  ∃ inner, s = '(' :: inner ++ [')'] ∧ inner.count '(' = inner.count ')' ∧
    ∀ a b, inner = a ++ ')' :: b → a.count '(' ≠ a.count ')'

/-! ## Decorations -/

theorem decorationsText_cons (d : Decoration) (ds : List Decoration) :
    decorationsText (d :: ds) = d.text ++ decorationsText ds := rfl

theorem mem_decorationsText {c : Char} {ds : List Decoration} (h : c ∈ decorationsText ds) :
    Text.isBlank c = true ∨ c ∈ ['?', '[', ',', ']'] := by
  obtain ⟨d, -, hd⟩ := List.mem_flatMap.1 h
  cases d with
  | blank c' =>
    obtain rfl := List.mem_singleton.1 hd
    exact Or.inl c'.2
  | nullable =>
    obtain rfl := List.mem_singleton.1 hd
    exact Or.inr (by decide)
  | rank inner =>
    rcases List.mem_append.1 hd with hd | hd
    · rcases List.mem_cons.1 hd with rfl | hd
      · exact Or.inr (by decide)
      · rcases inner.2 c hd with rfl | hblank
        · exact Or.inr (by decide)
        · exact Or.inl hblank
    · obtain rfl := List.mem_singleton.1 hd
      exact Or.inr (by decide)

theorem exists_decorations_of_blanks (blanks : Text.Blanks) : ∃ ds, blanks.1 = decorationsText ds := by
  obtain ⟨s, hs⟩ := blanks
  induction s with
  | nil => exact ⟨[], rfl⟩
  | cons c s ih =>
    obtain ⟨hc, hs⟩ := List.forall_mem_cons.1 hs
    obtain ⟨ds, hds⟩ := ih hs
    exact ⟨.blank ⟨c, hc⟩ :: ds, congrArg (c :: ·) hds⟩

/-- decorations without the blanks they start with are decorations -/
theorem exists_trimStart_decorations (ds : List Decoration) :
    ∃ ds', Text.trimStart (decorationsText ds) = decorationsText ds' := by
  induction ds with
  | nil => exact ⟨[], rfl⟩
  | cons d ds ih =>
    cases d with
    | blank c =>
      obtain ⟨ds', hds'⟩ := ih
      exact ⟨ds', (List.dropWhile_cons_of_pos c.2).trans hds'⟩
    | nullable => exact ⟨.nullable :: ds, dropWhile_solid (by decide) _⟩
    | rank inner => exact ⟨.rank inner :: ds, dropWhile_solid (by decide) _⟩

theorem exists_trimStart_append (e : Text) (ds : List Decoration) :
    ∃ ds', Text.trimStart (e ++ decorationsText ds) = Text.trimStart e ++ decorationsText ds' := by
  unfold Text.trimStart
  rw [List.dropWhile_append]
  split
  · rename_i hblank
    obtain ⟨ds', hds'⟩ := exists_trimStart_decorations ds
    exact ⟨ds', by rw [List.isEmpty_iff.1 hblank, List.nil_append]; exact hds'⟩
  · exact ⟨ds, rfl⟩

/-! ## Marks at the end -/

/-- blanks at the end do not matter -/
theorem dropMarks_congr {a b : Text} (h : a.dropWhile Text.isBlank = b.dropWhile Text.isBlank) :
    dropMarks a = dropMarks b := by
  rw [dropMarks_eq a, dropMarks_eq b, h]

theorem dropMarks_decorations (ds : List Decoration) (rest : Text) :
    dropMarks ((decorationsText ds).reverse ++ rest) = dropMarks rest := by
  induction ds generalizing rest with
  | nil => rfl
  | cons d ds ih =>
    rw [decorationsText_cons, List.reverse_append, List.append_assoc, ih]
    cases d with
    | blank c => exact dropMarks_congr (List.dropWhile_cons_of_pos c.2)
    | nullable => exact dropMarks_nullable rest
    | rank inner =>
      have hopen : '[' ∉ inner.1.reverse := by
        intro hmem
        exact absurd (inner.2 _ (List.mem_reverse.1 hmem)) (by decide)
      simpa [Decoration.text] using dropMarks_rank hopen rest

theorem withoutMarks_decorations (s : Text) (ds : List Decoration) :
    withoutMarks (s ++ decorationsText ds) = withoutMarks s := by
  rw [withoutMarks, List.reverse_append, dropMarks_decorations, withoutMarks]

/-! ## Names -/

/-- the name of a type that does not start with a blank -/
def bareName (s : Text) : Text := withoutMarks ((dropGlobalMark s).takeWhile (· != '<'))

/-- a global mark stands in the first of two texts, or the second one starts with a character of it -/
theorem dropGlobalMark_append (a : Text) {b : Text} (h : ∀ c ∈ b.head?, c ∉ globalMark) :
    dropGlobalMark (a ++ b) = dropGlobalMark a ++ b := by
  have hiff : globalMark <+: a ++ b ↔ globalMark <+: a := by
    refine ⟨fun hmark => ?_, fun hmark => hmark.trans (List.prefix_append a b)⟩
    rcases List.prefix_or_prefix_of_prefix hmark (List.prefix_append a b) with hmark' | ⟨rest, hrest⟩
    · exact hmark'
    · cases rest with
      | nil => exact List.append_nil a ▸ hrest ▸ List.prefix_rfl
      | cons c rest =>
        rw [← hrest, List.prefix_append_right_inj] at hmark
        obtain ⟨tail, rfl⟩ := hmark
        exact absurd (hrest ▸ by simp) (h c rfl)
  unfold dropGlobalMark
  simp only [List.isPrefixOf_iff_prefix, hiff]
  split
  · rename_i hmark
    exact List.drop_append_of_le_length hmark.length_le
  · rfl

theorem bareName_decorations (s : Text) (ds : List Decoration) : bareName (s ++ decorationsText ds) = bareName s := by
  have hmark : ∀ c ∈ (decorationsText ds).head?, c ∉ globalMark := by
    intro c hc hglobal
    have hother : ∀ c ∈ globalMark, ¬ (Text.isBlank c = true ∨ c ∈ ['?', '[', ',', ']']) := by decide
    exact hother c hglobal (mem_decorationsText (List.mem_of_head? hc))
  have hangle : ∀ c ∈ decorationsText ds, (c != '<') = true := by
    intro c hc
    rw [bne_iff_ne]
    rintro rfl
    exact absurd (mem_decorationsText hc) (by decide)
  unfold bareName
  rw [dropGlobalMark_append s hmark, List.takeWhile_append]
  split
  · rename_i hlength
    rw [List.takeWhile_eq_self_iff.2 hangle, withoutMarks_decorations,
      (List.takeWhile_prefix _).eq_of_length hlength]
  · rfl

/-- only the blanks in front of a type are to be removed -/
theorem nominalName_eq (s : Text) : nominalName s = bareName (Text.trimStart s) := by
  obtain ⟨after, hafter⟩ := Text.exists_trimEnd (Text.trimStart s)
  obtain ⟨ds, hds⟩ := exists_decorations_of_blanks after
  calc nominalName s
      = bareName (Text.trim s) := rfl
    _ = bareName (Text.trim s ++ decorationsText ds) := (bareName_decorations _ ds).symm
    _ = bareName (Text.trimStart s) := by rw [← hds, Text.trim, ← hafter]

theorem nominalName_decorations (e : Text) (ds : List Decoration) :
    nominalName (e ++ decorationsText ds) = nominalName e := by
  obtain ⟨ds', hds'⟩ := exists_trimStart_append e ds
  rw [nominalName_eq, hds', bareName_decorations, ← nominalName_eq]

theorem nominalName_arguments (n rest : Text) : nominalName (n ++ '<' :: rest) = nominalName n := by
  have htrim : Text.trimStart (n ++ '<' :: rest) = Text.trimStart n ++ '<' :: rest := by
    unfold Text.trimStart
    rw [List.dropWhile_append, dropWhile_solid (by decide)]
    split
    · rename_i hblank
      rw [List.isEmpty_iff.1 hblank, List.nil_append]
    · rfl
  have hmark : ∀ c ∈ ('<' :: rest).head?, c ∉ globalMark := by
    intro c hc
    obtain rfl := Option.some.inj hc
    decide
  rw [nominalName_eq, htrim, bareName, dropGlobalMark_append _ hmark, Text.takeWhile_append_stop, ← bareName,
    ← nominalName_eq]

theorem nominalName_trim (s : Text) : nominalName (Text.trim s) = nominalName s := by
  rw [nominalName, Text.trim_trim, nominalName]

/-! ## Tuples -/

theorem insideTuple?_eq_some_iff {s inner : Text} :
    insideTuple? s = some inner ↔ s = '(' :: inner ++ [')'] ∧ inner.count '(' = inner.count ')' ∧
      ∀ a b, inner = a ++ ')' :: b → a.count '(' ≠ a.count ')' := by
  constructor
  · intro h
    unfold insideTuple? at h
    split at h
    · rename_i rest
      split at h
      · rename_i c hcut
        obtain rfl := Option.some.inj h
        obtain ⟨rfl, hplace, hfirst⟩ := Nesting.cutFrom_eq_some_iff.1 hcut
        obtain ⟨rfl, -⟩ := List.cons_prefix_cons.1 (List.isPrefixOf_iff_prefix.1 hplace.passes)
        refine ⟨rfl, (Nesting.atTop_round _).1 hplace.atTop, ?_⟩
        rintro a b rfl hcount
        have hle := hfirst a (')' :: b ++ [')']) (by simp) ⟨by simp, (Nesting.atTop_round a).2 hcount, by simp⟩
        simp only [List.length_append, List.length_cons] at hle
        omega
      · contradiction
    · contradiction
  · rintro ⟨rfl, hcount, hinner⟩
    have hcut : Nesting.cut? Delimiters.round [')'] (inner ++ [')']) = some (inner, [')']) := by
      refine Nesting.cutFrom_eq_some_iff.2 ⟨rfl, ⟨by simp, (Nesting.atTop_round inner).2 hcount, rfl⟩, ?_⟩
      intro a b htext hplace
      obtain ⟨rest, rfl⟩ := List.isPrefixOf_iff_prefix.1 hplace.passes
      rcases Text.append_eq_append_cons htext with ⟨z, hz, -⟩ | ⟨z, rfl, -⟩
      · exact absurd ((Nesting.atTop_round a).1 hplace.atTop) (hinner a z hz)
      · simp
    rw [List.cons_append, insideTuple?, hcut]

theorem isTuple_iff (s : Text) : IsTuple s ↔ ∃ inner, insideTuple? s = some inner := by
  simp only [IsTuple, insideTuple?_eq_some_iff]

/-! ## The name of a tree -/

theorem nominalName_base {e : Text} (h : ¬ IsTuple (withoutMarks (Text.trim e))) :
    nominalName (parse e).base = nominalName e := by
  have hround : insideTuple? (withoutMarks (Text.trim e)) = none := by
    rw [Option.eq_none_iff_forall_ne_some]
    intro inner hinner
    exact h ((isTuple_iff _).2 ⟨inner, hinner⟩)
  rw [parse_eq, arguments?, hround]
  cases hangles : insideAngles? (Text.trim e) with
  | none => exact nominalName_trim e
  | some p =>
    obtain ⟨base, inner⟩ := p
    simp only [insideAngles?, Option.bind_eq_bind, Option.bind_eq_some_iff, Option.pure_def, Option.some.injEq,
      Prod.mk.injEq] at hangles
    obtain ⟨⟨before, rest⟩, hfirst, -, -, rfl, -⟩ := hangles
    calc nominalName (Text.trim before)
        = nominalName before := nominalName_trim before
      _ = nominalName (before ++ '<' :: rest) := (nominalName_arguments before rest).symm
      _ = nominalName (Text.trim e) := by rw [← Text.splitFirst?_eq_some hfirst]
      _ = nominalName e := nominalName_trim e

theorem getLast?_of_suffix {c d : Char} {s rest : Text} (h : d :: rest <:+ s) (hlast : s.getLast? = some c)
    (hne : c ≠ d) : rest.getLast? = some c := by
  obtain ⟨x, rfl⟩ := h
  rw [List.getLast?_append] at hlast
  cases rest with
  | nil => exact absurd (Option.some.inj hlast).symm hne
  | cons d' rest => exact hlast

/-- a text keeps its first character if no mark starts or ends with it -/
theorem dropMarks_ne_nil {c : Char} (hblank : Text.isBlank c = false) (hquestion : c ≠ '?') (hbox : c ≠ '[')
    {backward : Text} (hlast : backward.getLast? = some c) : dropMarks backward ≠ [] := by
  fun_induction dropMarks backward with
  | case1 b rest hb ih =>
    have hrest : '?' :: rest <:+ b := hb ▸ List.dropWhile_suffix Text.isBlank
    exact ih (getLast?_of_suffix hrest hlast hquestion)
  | case2 b rest hb skipped before hs ih =>
    have hrest : ']' :: rest <:+ b := hb ▸ List.dropWhile_suffix Text.isBlank
    have hbefore : '[' :: before <:+ ']' :: rest := ⟨']' :: skipped, by rw [Text.splitFirst?_eq_some hs, List.cons_append]⟩
    exact ih (getLast?_of_suffix (hbefore.trans hrest) hlast hbox)
  | case3 b rest hb hs => exact List.cons_ne_nil _ _
  | case4 b _ _ =>
    intro hnone
    have hall := List.dropWhile_eq_nil_iff.1 hnone c (List.mem_of_getLast? hlast)
    rw [hblank] at hall
    contradiction

/-- a tuple starts with a parenthesis, and so does what is left as its name -/
theorem nominalName_ne_nil {e : Text} (h : IsTuple (withoutMarks (Text.trim e))) : nominalName e ≠ [] := by
  obtain ⟨inner, htuple, -⟩ := h
  obtain ⟨rest, htrim⟩ := withoutMarks_isPrefix (Text.trim e)
  rw [htuple, List.cons_append, List.cons_append] at htrim
  have hglobal : ∀ s, dropGlobalMark ('(' :: s) = '(' :: s := fun _ => rfl
  rw [nominalName, ← htrim, hglobal, List.takeWhile_cons_of_pos (by decide), withoutMarks, Ne,
    List.reverse_eq_nil_iff]
  refine dropMarks_ne_nil (c := '(') (by decide) (by decide) (by decide) ?_
  rw [List.reverse_cons, List.getLast?_concat]

theorem base_of_isTuple {e : Text} (h : IsTuple (withoutMarks (Text.trim e))) : (parse e).base = [] := by
  obtain ⟨inner, hinner⟩ := (isTuple_iff _).1 h
  rw [parse_eq, arguments?, hinner]
  rfl

theorem nominalName_base_iff (e : Text) :
    nominalName (parse e).base = nominalName e ↔ ¬ IsTuple (withoutMarks (Text.trim e)) := by
  constructor
  · intro hname htuple
    have hnone : nominalName [] = [] := List.prefix_nil.1 (withoutMarks_isPrefix [])
    rw [base_of_isTuple htuple, hnone] at hname
    exact nominalName_ne_nil htuple hname.symm
  · exact nominalName_base

end ClassAtlas.TypeTree

namespace ClassAtlas.Outline

open Pattern

/-- what an object is created of starts with a name -/
theorem exists_of_mem_creationPattern {s t r type : Text} (h : ⟨type, t, r⟩ ∈ creationPattern s) :
    ∃ c rest, type = c :: rest ∧ isNameStart c = true := by
  obtain ⟨_, _, _, _, -, h₁, -⟩ := mem_bind.1 h
  obtain ⟨_, _, _, _, -, h₂, -⟩ := mem_bind.1 h₁
  obtain ⟨_, _, _, _, hcaptured, h₃, -⟩ := mem_bind.1 h₂
  obtain ⟨_, _, _, _, -, h₄, -⟩ := mem_bind.1 h₃
  obtain ⟨_, _, _, _, -, h₅, -⟩ := mem_bind.1 h₄
  obtain ⟨rfl, -⟩ := mem_pure.1 h₅
  obtain ⟨rfl, _, hnamed⟩ := mem_capture.1 hcaptured
  obtain ⟨_, _, _, _, hname, -, rfl⟩ := mem_bind.1 hnamed
  obtain ⟨_, _, _, _, hstart, -, rfl⟩ := mem_bind.1 hname
  obtain ⟨c, hc, rfl, -⟩ := mem_satisfy.1 hstart
  have hsolid : Text.isBlank c = false := Text.not_isBlank_of_isNameChar (isNameChar_of_isNameStart hc)
  exact ⟨c, _, Text.trim_cons hsolid _, hc⟩

theorem nominalName_created {text : Text} {found : Option Char × Match Text}
    (h : found ∈ creationPattern.atWordStarts text) :
    TypeTree.nominalName (TypeTree.parse found.2.value).base = TypeTree.nominalName found.2.value := by
  obtain ⟨_, s, -, hfirst, -⟩ := mem_atWordStarts h
  obtain ⟨c, rest, htype, hc⟩ := exists_of_mem_creationPattern (mem_of_first? hfirst)
  apply TypeTree.nominalName_base
  -- a tuple would start with a parenthesis
  rintro ⟨inner, htuple, -⟩
  have hsolid : Text.isBlank c = false := Text.not_isBlank_of_isNameChar (isNameChar_of_isNameStart hc)
  obtain ⟨tail, htail⟩ := TypeTree.withoutMarks_isPrefix (Text.trim found.2.value)
  rw [htuple, htype, Text.trim_cons hsolid] at htail
  obtain ⟨rfl, -⟩ := List.cons_eq_cons.1 htail
  exact absurd hc (by decide)

/-- the types that every program has may be left out before the expressions are read, or afterwards -/
theorem createdIn_eq_filter (text : Text) :
    createdIn text = ((creationPattern.atWordStarts text).map fun found => TypeTree.parse found.2.value).filter
      fun type => !isCommonType type.base := by
  have hjudge : (creationPattern.atWordStarts text).filter (fun found => !isCommonType found.2.value) =
      (creationPattern.atWordStarts text).filter fun found => !isCommonType (TypeTree.parse found.2.value).base := by
    refine List.filter_congr fun found hfound => ?_
    rw [isCommonType, isCommonType, nominalName_created hfound]
  rw [createdIn, List.filter_map, List.map_map, List.filter_map]
  exact congrArg (List.map _) hjudge

end ClassAtlas.Outline

namespace ClassAtlas.TypeTree

/-- **The name of a type ignores its decorations.** It is the same with blanks, question marks and array ranks behind
the type, with type arguments and whatever follows them, and after reading, unless the type is a tuple. So it does not
matter whether the types that every program has are left out of the created ones before reading or afterwards. -/
theorem nominalName_decorated :
    (∀ (e : Text) (ds : List Decoration), nominalName (e ++ decorationsText ds) = nominalName e) ∧
      (∀ n rest : Text, nominalName (n ++ '<' :: rest) = nominalName n) ∧
      (∀ e : Text, nominalName (parse e).base = nominalName e ↔ ¬ IsTuple (withoutMarks (Text.trim e))) ∧
      ∀ text : Text, Outline.createdIn text =
        ((Outline.creationPattern.atWordStarts text).map fun found => parse found.2.value).filter
          fun type => !Outline.isCommonType type.base :=
  ⟨nominalName_decorations, nominalName_arguments, nominalName_base_iff, Outline.createdIn_eq_filter⟩

end ClassAtlas.TypeTree
