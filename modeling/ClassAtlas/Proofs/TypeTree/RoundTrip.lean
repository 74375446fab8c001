/-
Reading a written type expression gives its tree.

The reader cuts by searches: the marks off the end, the first `<` and the last `>`, the commas at the top level, and the
last word of an argument that has a name. On a written expression each of these cuts falls where the writing joined its
parts, one lemma for each. `parse_render` puts them together by induction on the expression.
-/
import ClassAtlas.Proofs.TypeTree.Scan

namespace ClassAtlas.TypeTree

open Nesting (Delimiters Shielded)

/-! ## Marks -/

/-- the marks are looked for after the blanks at the end -/
theorem dropWhile_solid {c : Char} (h : Text.isBlank c = false) (rest : Text) :
    (c :: rest).dropWhile Text.isBlank = c :: rest :=
  List.dropWhile_cons_of_neg (by simp [h])

/-- one mark is removed after the other; only a bracket that nothing opens stays -/
theorem dropMarks_eq (backward : Text) : dropMarks backward =
    match backward.dropWhile Text.isBlank with
    | '?' :: rest => dropMarks rest
    | ']' :: rest =>
      match Text.splitFirst? '[' rest with
      | some (_, before) => dropMarks before
      | none => ']' :: rest
    | rest => rest := by
  rw [dropMarks]
  split
  · rename_i h
    rw [h]
    rfl
  · rename_i h
    rw [h]
    split <;> rename_i hsplit <;> simp only [hsplit]
  · rename_i hquestion hbox
    split
    · rename_i h
      exact absurd h (hquestion _)
    · rename_i h
      exact absurd h (hbox _)
    · rfl

theorem dropMarks_nullable (rest : Text) : dropMarks ('?' :: rest) = dropMarks rest := by
  rw [dropMarks_eq, dropWhile_solid (by decide)]
  rfl

/-- a rank goes as far as the first bracket that may open it -/
theorem dropMarks_rank {inner : Text} (h : '[' ∉ inner) (rest : Text) :
    dropMarks (']' :: inner ++ '[' :: rest) = dropMarks rest := by
  rw [dropMarks_eq, List.cons_append, dropWhile_solid (by decide)]
  simp only [Text.splitFirst?_append_cons h]

theorem dropMarks_solid {c : Char} (hb : Text.isBlank c = false) (hq : c ≠ '?') (hr : c ≠ ']') (rest : Text) :
    dropMarks (c :: rest) = c :: rest := by
  rw [dropMarks_eq, dropWhile_solid hb]
  split
  · rename_i h
    exact absurd (List.cons.inj h).1 hq
  · rename_i h
    exact absurd (List.cons.inj h).1 hr
  · rfl

theorem dropMarks_marks (marks : List Mark) (rest : Text) :
    dropMarks ((marksText marks).reverse ++ rest) = dropMarks rest := by
  induction marks generalizing rest with
  | nil => rfl
  | cons m marks ih =>
    have hcons : marksText (m :: marks) = m.text ++ marksText marks := rfl
    rw [hcons, List.reverse_append, List.append_assoc, ih]
    cases m with
    | nullable => exact dropMarks_nullable rest
    | rank commas =>
      have hopen : '[' ∉ List.replicate commas ',' := by simp
      simpa [Mark.text] using dropMarks_rank hopen rest

/-- the marks are removed, and nothing before them -/
theorem withoutMarks_append {c : Char} (hb : Text.isBlank c = false) (hq : c ≠ '?') (hr : c ≠ ']') (s : Text)
    (marks : List Mark) : withoutMarks (s ++ [c] ++ marksText marks) = s ++ [c] := by
  have hrev : (s ++ [c] ++ marksText marks).reverse = (marksText marks).reverse ++ c :: s.reverse := by simp
  rw [withoutMarks, hrev, dropMarks_marks, dropMarks_solid hb hq hr]
  simp

/-! ## Names of arguments -/

/-- a run of characters ends before one that does not belong to it -/
theorem mem_of_mem_takeWhile {p : Char → Bool} {a b : Text} {c d : Char} (hd : p d = false)
    (h : c ∈ (a ++ d :: b).takeWhile p) : c ∈ a := by
  rw [List.takeWhile_append, List.takeWhile_cons_of_neg (by simp [hd]), List.append_nil] at h
  split at h
  · exact h
  · exact (List.takeWhile_prefix p).subset h

/-- without a blank after the last closing bracket there is no name to drop -/
theorem elementType_eq_self {closed rest : Text} (hc : closed = [] ∨ ∃ s c, closed = s ++ [c] ∧ isClosing c = true)
    (hr : ∀ c ∈ rest, Text.isBlank c = false) : elementType (closed ++ rest) = closed ++ rest := by
  have htail : ∀ c ∈ (closed ++ rest).reverse.takeWhile (!isClosing ·), Text.isBlank c = false := by
    intro c hm
    refine hr c ?_
    rcases hc with rfl | ⟨s, d, rfl, hd⟩
    · simpa using (List.takeWhile_prefix _).subset hm
    · have hrev : (s ++ [d] ++ rest).reverse = rest.reverse ++ d :: s.reverse := by simp
      rw [hrev] at hm
      exact List.mem_reverse.1 (mem_of_mem_takeWhile (by simp [hd]) hm)
  have hnil : (((closed ++ rest).reverse.takeWhile (!isClosing ·)).dropWhile Text.isBlank).dropWhile
      (!Text.isBlank ·) = [] := by
    refine List.dropWhile_eq_nil_iff.2 fun c hm => ?_
    simp [htail c ((List.dropWhile_suffix _).subset hm)]
  simp only [elementType, hnil]

theorem not_blank_of_isNamePart {c : Char} (h : isNamePart c = true) : Text.isBlank c = false := by
  simp only [isNamePart, Bool.not_eq_true', Bool.or_eq_false_iff] at h
  tauto

theorem not_closing_of_isNamePart {c : Char} (h : isNamePart c = true) : isClosing c = false := by
  simp only [isNamePart, Bool.not_eq_true', Bool.or_eq_false_iff] at h
  simp only [isClosing, Bool.or_eq_false_iff]
  tauto

theorem not_closing_of_isBlank {c : Char} (h : Text.isBlank c = true) : isClosing c = false := by
  by_contra hc
  simp only [isClosing, Bool.not_eq_false, Bool.or_eq_true, beq_iff_eq] at hc
  rcases hc with (rfl | rfl) | rfl <;> exact absurd h (by decide)

/-- the name of an argument and the blanks before it are dropped -/
theorem elementType_append_label {type : Text} (hs : Text.StartsSolid type) (he : Text.EndsSolid type) (label : Label) :
    elementType (type ++ label.text) = type := by
  obtain ⟨⟨gap, hgap⟩, hne, ⟨name, hname, hparts⟩⟩ := label
  -- backwards: the name, the last blank of the gap, its other blanks, and the type
  obtain ⟨b, others, hothers⟩ := List.exists_cons_of_ne_nil (List.reverse_ne_nil_iff.2 hne)
  have hblank : ∀ c ∈ b :: others, Text.isBlank c = true := fun c hc => hgap c (List.mem_reverse.1 (hothers ▸ hc))
  obtain ⟨n, ns, hns⟩ := List.exists_cons_of_ne_nil (List.reverse_ne_nil_iff.2 hname)
  have hpart : ∀ c ∈ n :: ns, isNamePart c = true := fun c hc => hparts c (List.mem_reverse.1 (hns ▸ hc))
  have hbackward : (type ++ (gap ++ name)).reverse = (n :: ns) ++ ((b :: others) ++ type.reverse) := by
    simp [hothers, hns]
  have hopen : ∀ c ∈ (n :: ns) ++ (b :: others), (!isClosing c) = true := by
    intro c hc
    rcases List.mem_append.1 hc with hc | hc
    · simp [not_closing_of_isNamePart (hpart c hc)]
    · simp [not_closing_of_isBlank (hblank c hc)]
  have htail : ((n :: ns) ++ ((b :: others) ++ type.reverse)).takeWhile (!isClosing ·) =
      (n :: ns) ++ ((b :: others) ++ type.reverse.takeWhile (!isClosing ·)) := by
    rw [← List.append_assoc, List.takeWhile_append_of_pos hopen, List.append_assoc]
  have hrest : ((n :: ns) ++ ((b :: others) ++ type.reverse)).dropWhile (!isClosing ·) =
      type.reverse.dropWhile (!isClosing ·) := by
    rw [← List.append_assoc, List.dropWhile_append_of_pos hopen]
  have hword : (((n :: ns) ++ ((b :: others) ++ type.reverse.takeWhile (!isClosing ·))).dropWhile Text.isBlank).dropWhile
      (!Text.isBlank ·) = b :: (others ++ type.reverse.takeWhile (!isClosing ·)) := by
    rw [List.cons_append, dropWhile_solid (not_blank_of_isNamePart (hpart n (by simp))), ← List.cons_append,
      List.cons_append (a := b)]
    exact Text.dropWhile_append_cons (fun c hc => by simp [not_blank_of_isNamePart (hpart c hc)])
      (by simp [hblank b (by simp)])
  have htype : Text.trim ((others ++ type.reverse.takeWhile (!isClosing ·)) ++
      type.reverse.dropWhile (!isClosing ·)).reverse = type := by
    rw [List.append_assoc, List.takeWhile_append_dropWhile, List.reverse_append, List.reverse_reverse]
    have hnone : ∀ c ∈ ([] : Text), Text.isBlank c = true := fun c hc => absurd hc List.not_mem_nil
    have hsome : ∀ c ∈ others.reverse, Text.isBlank c = true := fun c hc => hblank c (by simp_all)
    simpa using Text.trim_append hnone hs he hsome
  have hempty : type.isEmpty = false := by simpa using hs.ne_nil
  simp only [elementType, Label.text, hbackward, htail, hword, hrest, htype, hempty, Bool.false_eq_true, ite_false]

/-! ## Both ends of an expression -/

theorem solid_name (name : Name) : Text.StartsSolid name.1 ∧ Text.EndsSolid name.1 :=
  Text.solid_of_forall name.2.1 fun c hc => not_blank_of_isNamePart (name.2.2 c hc)

theorem mem_marksText {marks : List Mark} {c : Char} (h : c ∈ marksText marks) :
    c = '?' ∨ c = '[' ∨ c = ',' ∨ c = ']' := by
  obtain ⟨m, -, hc⟩ := List.mem_flatMap.1 h
  cases m with
  | nullable => exact Or.inl (by simpa [Mark.text] using hc)
  | rank commas =>
    simp only [Mark.text, List.cons_append, List.mem_cons, List.mem_append, List.mem_replicate] at hc
    tauto

theorem not_blank_of_mem_marksText {marks : List Mark} {c : Char} (h : c ∈ marksText marks) :
    Text.isBlank c = false := by
  rcases mem_marksText h with rfl | rfl | rfl | rfl <;> decide

theorem endsSolid_marksText {s : Text} (h : Text.EndsSolid s) (marks : List Mark) :
    Text.EndsSolid (s ++ marksText marks) := by
  by_cases hm : marksText marks = []
  · rw [hm, List.append_nil]
    exact h
  · exact (Text.solid_of_forall hm fun c hc => not_blank_of_mem_marksText hc).2.append _

namespace Shape

theorem startsSolid (shape : Shape) : Text.StartsSolid shape.render := by
  cases shape with
  | plain name => exact (solid_name name).1
  | generic name arguments =>
    rw [render, List.append_assoc]
    exact (solid_name name).1.append _
  | tuple elements => exact ⟨'(', _, rfl, by decide⟩

/-- the last character belongs to no mark, so a search for marks stops there -/
theorem exists_last (shape : Shape) :
    ∃ s c, shape.render = s ++ [c] ∧ Text.isBlank c = false ∧ c ≠ '?' ∧ c ≠ ']' := by
  cases shape with
  | plain name =>
    have hlast := name.2.2 _ (List.getLast_mem name.2.1)
    refine ⟨_, _, (List.dropLast_concat_getLast name.2.1).symm, not_blank_of_isNamePart hlast, ?_, ?_⟩ <;>
      exact fun h => absurd (h ▸ hlast) (by decide)
  | generic name arguments => exact ⟨_, '>', rfl, by decide⟩
  | tuple elements => exact ⟨_, ')', rfl, by decide⟩

/-- no blank stands after the last closing bracket -/
theorem exists_closed (shape : Shape) : ∃ closed rest, shape.render = closed ++ rest ∧
    (closed = [] ∨ ∃ s c, closed = s ++ [c] ∧ isClosing c = true) ∧ ∀ c ∈ rest, Text.isBlank c = false := by
  cases shape with
  | plain name => exact ⟨[], name.1, rfl, Or.inl rfl, fun c hc => not_blank_of_isNamePart (name.2.2 c hc)⟩
  | generic name arguments => exact ⟨_, [], (List.append_nil _).symm, Or.inr ⟨_, '>', rfl, rfl⟩, by simp⟩
  | tuple elements => exact ⟨_, [], (List.append_nil _).symm, Or.inr ⟨_, ')', rfl, rfl⟩, by simp⟩

theorem withoutMarks_render (shape : Shape) (marks : List Mark) :
    withoutMarks (shape.render ++ marksText marks) = shape.render := by
  obtain ⟨s, c, hs, hb, hq, hr⟩ := shape.exists_last
  rw [hs, withoutMarks_append hb hq hr]

theorem endsSolid_marks (shape : Shape) (marks : List Mark) : Text.EndsSolid (shape.render ++ marksText marks) := by
  obtain ⟨s, c, hs, hb, -⟩ := shape.exists_last
  exact endsSolid_marksText ⟨s, c, hs, hb⟩ marks

theorem trim_render (shape : Shape) (marks : List Mark) :
    Text.trim (shape.render ++ marksText marks) = shape.render ++ marksText marks :=
  Text.trim_eq_self (shape.startsSolid.append _) (shape.endsSolid_marks marks)

theorem elementType_render (shape : Shape) (marks : List Mark) (label : Option Label) :
    elementType (shape.render ++ marksText marks ++ labelText label) = shape.render ++ marksText marks := by
  cases label with
  | none =>
    obtain ⟨closed, rest, hs, hc, hr⟩ := shape.exists_closed
    rw [labelText, Option.map_none, Option.getD_none, List.append_nil, hs, List.append_assoc]
    refine elementType_eq_self hc fun c hm => ?_
    exact (List.mem_append.1 hm).elim (hr c) not_blank_of_mem_marksText
  | some label => exact elementType_append_label (shape.startsSolid.append _) (shape.endsSolid_marks marks) label

end Shape

/-! ## The list of arguments -/

def Arguments.toList : Arguments → List Argument
  | .one argument => [argument]
  | .more argument others => argument :: others.toList

theorem Arguments.toList_ne_nil (arguments : Arguments) : arguments.toList ≠ [] := by
  cases arguments <;> simp [Arguments.toList]

theorem Arguments.render_eq (arguments : Arguments) :
    arguments.render = List.intercalate [','] (arguments.toList.map Argument.render) := by
  match arguments with
  | .one argument => simp [Arguments.render, Arguments.toList, List.intercalate]
  | .more argument others =>
    have ih := others.render_eq
    obtain ⟨second, rest, hl⟩ := List.exists_cons_of_ne_nil others.toList_ne_nil
    rw [Arguments.render, ih, Arguments.toList, hl]
    simp [List.intercalate]

theorem Argument.startsSolid_core (argument : Argument) : Text.StartsSolid argument.core := by
  obtain ⟨before, shape, marks, label, after⟩ := argument
  exact (shape.startsSolid.append _).append _

theorem Argument.endsSolid_core (argument : Argument) : Text.EndsSolid argument.core := by
  obtain ⟨before, shape, marks, label, after⟩ := argument
  cases label with
  | none =>
    rw [Argument.core, labelText, Option.map_none, Option.getD_none, List.append_nil]
    exact shape.endsSolid_marks _
  | some label => exact ((solid_name label.name).2.append _).append _

/-- an argument as a piece of the list -/
def Argument.padded : Argument → Nesting.Padded
  | argument@(.mk before _ _ _ after) => ⟨before, argument.core, after⟩

theorem Argument.isPiece (argument : Argument) : Nesting.IsPiece Delimiters.grouping ',' argument.core where
  starts := argument.startsSolid_core
  ends := argument.endsSolid_core
  shielded := argument.shielded_core (sees_grouping (fun _ h _ => h) _) fun c hc he => absurd (he ▸ hc) (by decide)

/-- the list is cut into its arguments -/
theorem argumentList_render (arguments : Arguments) :
    argumentList arguments.render = arguments.toList.map Argument.core := by
  have htext : arguments.toList.map Argument.render =
      (arguments.toList.map Argument.padded).map Nesting.Padded.text := by
    rw [List.map_map]
    exact List.map_congr_left fun argument _ => by cases argument; rfl
  have hpiece : (arguments.toList.map Argument.padded).map Nesting.Padded.piece =
      arguments.toList.map Argument.core := by
    rw [List.map_map]
    exact List.map_congr_left fun argument _ => by cases argument; rfl
  rw [arguments.render_eq, argumentList, htext, Nesting.split_padded (by decide), hpiece]
  · simpa using arguments.toList_ne_nil
  · intro p hp
    obtain ⟨argument, -, rfl⟩ := List.mem_map.1 hp
    cases argument with
    | mk before shape marks label after => exact (Argument.mk before shape marks label after).isPiece

/-! ## The three shapes -/

theorem insideTuple?_name_append (name : Name) (rest : Text) : insideTuple? (name.1 ++ rest) = none := by
  obtain ⟨s, hne, hparts⟩ := name
  obtain ⟨c, s, rfl⟩ := List.exists_cons_of_ne_nil hne
  have hc : c ≠ '(' := fun he => absurd (he ▸ hparts c List.mem_cons_self) (by decide)
  unfold insideTuple?
  split
  · rename_i h
    exact absurd (List.cons.inj h).1 hc
  · rfl

theorem arguments?_plain (name : Name) (marks : List Mark) :
    arguments? ((Shape.plain name).render ++ marksText marks) = none := by
  have hfree : '<' ∉ name.1 ++ marksText marks := by
    intro h
    rcases List.mem_append.1 h with h | h
    · exact absurd (name.2.2 _ h) (by decide)
    · exact absurd (mem_marksText h) (by decide)
  have htuple := insideTuple?_name_append name []
  rw [List.append_nil] at htuple
  rw [arguments?, Shape.withoutMarks_render, Shape.render, htuple]
  simp only [insideAngles?, Text.splitFirst?_eq_none_iff.2 hfree]
  rfl

/-- a list in angle brackets after a name, whatever stands in it -/
theorem arguments?_angles (name : Name) (inner : Text) (marks : List Mark) :
    arguments? (name.1 ++ '<' :: inner ++ ['>'] ++ marksText marks) = some (name.1, inner) := by
  have hname : '<' ∉ name.1 := fun h => absurd (name.2.2 _ h) (by decide)
  have hmarks : '>' ∉ marksText marks := fun h => absurd (mem_marksText h) (by decide)
  have htuple := insideTuple?_name_append name ('<' :: (inner ++ ['>']))
  rw [arguments?, withoutMarks_append (by decide) (by decide) (by decide), List.append_assoc name.1, List.cons_append,
    htuple]
  simp only [insideAngles?, List.append_assoc, List.cons_append, List.nil_append, Text.splitFirst?_append_cons hname,
    Text.splitLast?_append_cons hmarks, Option.bind_eq_bind, Option.bind_some, Option.pure_def,
    Text.trim_eq_self (solid_name name).1 (solid_name name).2]

/-- a list in round brackets that close only at its end -/
theorem arguments?_rounds {inner : Text} (h : Shielded Delimiters.round (· ≠ ')') inner) (marks : List Mark) :
    arguments? ('(' :: inner ++ [')'] ++ marksText marks) = some ([], inner) := by
  rw [arguments?, withoutMarks_append (by decide) (by decide) (by decide), List.cons_append, insideTuple?,
    Nesting.cut?_append_cons h]

theorem arguments?_generic (name : Name) (arguments : Arguments) (marks : List Mark) :
    arguments? ((Shape.generic name arguments).render ++ marksText marks) = some (name.1, arguments.render) :=
  arguments?_angles name arguments.render marks

theorem arguments?_tuple (elements : Arguments) (marks : List Mark) :
    arguments? ((Shape.tuple elements).render ++ marksText marks) = some ([], elements.render) := by
  -- the scan counts round brackets only; in an expression no closing one of them stands alone
  have hall := elements.shielded (sees_grouping (fun _ _ _ => trivial) elements.render)
  have hround : Shielded Delimiters.round (· ≠ ')') elements.render :=
    hall.weaken (by decide) fun c hc => hc .round (by decide)
  exact arguments?_rounds hround marks

/-! ## The tree -/

mutual

theorem parse_shape (shape : Shape) (marks : List Mark) :
    parse (shape.render ++ marksText marks) = shape.tree (marksText marks) := by
  rw [parse_eq, shape.trim_render]
  cases shape with
  | plain name => rw [arguments?_plain, Shape.render, Shape.tree]
  | generic name arguments => simp only [arguments?_generic, Shape.tree, argumentTrees_render arguments]
  | tuple elements => simp only [arguments?_tuple, Shape.tree, argumentTrees_render elements]

theorem argumentTrees_render (arguments : Arguments) : argumentTrees arguments.render = arguments.trees := by
  rw [argumentTrees, argumentList_render, List.map_map]
  exact parse_arguments arguments

theorem parse_arguments (arguments : Arguments) :
    arguments.toList.map ((fun part => parse (elementType part)) ∘ Argument.core) = arguments.trees := by
  cases arguments with
  | one argument => simp [Arguments.toList, Arguments.trees, parse_argument argument]
  | more argument others =>
    simp only [Arguments.toList, Arguments.trees, List.map_cons, Function.comp_apply, parse_argument argument]
    rw [parse_arguments others]

theorem parse_argument (argument : Argument) : parse (elementType argument.core) = argument.tree := by
  cases argument with
  | mk before shape marks label after =>
    rw [Argument.core, simpleText, shape.elementType_render, parse_shape shape]
    rfl

end

/-- **a written expression is read back**: its tree, and its names in the order in which they are written -/
theorem parse_render (e : Expression) : parse e.render = e.tree ∧ (parse e.render).names = e.names := by
  have htree : parse e.render = e.tree := parse_shape e.shape e.marks
  refine ⟨htree, ?_⟩
  rw [htree]
  exact names_tree e.shape (marksText e.marks)

end ClassAtlas.TypeTree
