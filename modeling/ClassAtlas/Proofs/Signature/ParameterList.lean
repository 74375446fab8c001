/-
Parameter lists as they are written in full.

A parameter may have attributes and modifiers before its type and a default value behind its name. Attributes are text in
square brackets, with their own brackets paired; a default value is a closed literal, or text without brackets, marks and
commas. Commas stand inside brackets and literals only, so the list is cut between its parameters (`passable_text`). Of
each parameter the attributes are dropped, then the modifiers, and the type reaches to the next blank
(`typeOfParameter?_trim`). So the trees of a list are those of its types, in order (`parameterTypes_listText`).
-/
import ClassAtlas.Proofs.Literal.Scan
import ClassAtlas.Proofs.Signature.Parameter

namespace ClassAtlas.Signature

open Nesting (Delimiters Literal Passable Plain Shielded)
open Text (Blanks EndsSolid StartsSolid)

/-! ## Parameters in full -/

/-- an attribute and the blanks behind it -/
structure Attribute where
  inner : Text
  nested : Shielded Delimiters.all (fun _ => True) inner
  after : Blanks

def Attribute.text (a : Attribute) : Text := '[' :: a.inner ++ ']' :: a.after.1

/-- a modifier of parameters and the blanks behind it -/
structure ParameterModifier where
  word : Text
  listed : Vocabulary.isParameterWord word = true
  gap : Blanks
  gap_ne : gap.1 ≠ []

def ParameterModifier.text (m : ParameterModifier) : Text := m.word ++ m.gap.1

inductive DefaultValue where
  | literal (l : Literal)
  /-- a number, say, or a name -/
  | bare (text : Text) (chars : ∀ c ∈ text, Plain Delimiters.all c ∧ c ≠ ',')

def DefaultValue.text : DefaultValue → Text
  | literal l => l.text
  | bare text _ => text

structure FullParameter extends Parameter where
  attributes : List Attribute
  modifiers : List ParameterModifier
  gap : Blanks
  gap_ne : gap.1 ≠ []
  value : Option DefaultValue

namespace FullParameter

/-- from the modifiers on, with the default value left open -/
def modified (p : FullParameter) (tail : Text) : Text :=
  p.modifiers.flatMap ParameterModifier.text ++ (p.type.render ++ (p.gap.1 ++ (p.name.1 ++ tail)))

def valueText (p : FullParameter) : Text := (p.value.map fun v => [' ', '=', ' '] ++ v.text).getD []

def text (p : FullParameter) : Text := p.attributes.flatMap Attribute.text ++ p.modified p.valueText

end FullParameter

/-- a parameter with blanks around it -/
structure Listed where
  before : Blanks
  parameter : FullParameter
  after : Blanks

def Listed.text (l : Listed) : Text := l.before.1 ++ l.parameter.text ++ l.after.1

def listText (list : List Listed) : Text := List.intercalate [','] (list.map Listed.text)

/-! ## Scanning -/

theorem ne_comma_of_isBlank {c : Char} (h : Text.isBlank c = true) : c ≠ ',' := by
  rintro rfl
  exact absurd h (by decide)

theorem Attribute.shielded (a : Attribute) : Shielded Delimiters.all (· ≠ ',') a.text := by
  have hgroup : Shielded Delimiters.all (· ≠ ',') ('[' :: a.inner ++ [']']) :=
    .group (b := .box) (by decide) (by decide) a.nested
  have htext : a.text = ('[' :: a.inner ++ [']']) ++ a.after.1 := by simp [Attribute.text]
  rw [htext]
  exact hgroup.append (.of_blanks (fun _ => ne_comma_of_isBlank) a.after)

/-- what the words of the table are made of -/
theorem isNamePart_of_isParameterWord {word : Text} (h : Vocabulary.isParameterWord word = true) :
    word ≠ [] ∧ ∀ c ∈ word, TypeTree.isNamePart c = true ∧ TypeTree.isSignatureChar c = true := by
  have hwords : ∀ w ∈ Vocabulary.parameterWords,
      w ≠ [] ∧ ∀ c ∈ w, TypeTree.isNamePart c = true ∧ TypeTree.isSignatureChar c = true := by decide
  exact hwords word (by simpa [Vocabulary.isParameterWord] using h)

theorem ParameterModifier.shielded (m : ParameterModifier) : Shielded Delimiters.all (· ≠ ',') m.text := by
  have hword : Shielded Delimiters.all (· ≠ ',') m.word := by
    refine .of_forall fun c hc => ?_
    obtain ⟨hpart, hchar⟩ := (isNamePart_of_isParameterWord m.listed).2 c hc
    exact ⟨TypeTree.plain_of_isNamePart _ hpart hchar, fun he => absurd (he ▸ hpart) (by decide)⟩
  exact hword.append (.of_blanks (fun _ => ne_comma_of_isBlank) m.gap)

theorem shielded_flatMap {α : Type} {counted : Delimiters} {p : Char → Prop} {f : α → Text}
    (h : ∀ x, Shielded counted p (f x)) (xs : List α) : Shielded counted p (xs.flatMap f) := by
  induction xs with
  | nil => exact .nil
  | cons x xs ih =>
    rw [List.flatMap_cons]
    exact (h x).append ih

/-- the blank before a literal keeps it apart from an `@` -/
theorem DefaultValue.passable (v : DefaultValue) :
    Passable Delimiters.all (· ≠ ',') ([' ', '=', ' '] ++ v.text) := by
  have hequals : Shielded Delimiters.all (· ≠ ',') [' ', '=', ' '] := by
    refine .of_forall fun c hc => ?_
    have hchars : c = ' ' ∨ c = '=' ∨ c = ' ' := by simpa using hc
    rcases hchars with rfl | rfl | rfl
    all_goals exact ⟨fun _ => rfl, by decide⟩
  cases v with
  | bare text chars => exact (hequals.append (.of_forall chars)).passable
  | literal l =>
    intro s hs h0
    have hfirst := hequals.passable s hs h0
    have hquote : .quote l.quote ∈ Delimiters.all := by cases l.quote <;> decide
    have hmark : l.quote.mark ≠ ',' := by cases l.quote <;> decide
    have hprevious : (s.run Delimiters.all [' ', '=', ' ']).previous ≠ some '@' := by
      show some ' ' ≠ some '@'
      decide
    have hzero : (s.run Delimiters.all [' ', '=', ' ']).levels.total = 0 := by rw [hfirst.levels, h0]
    have hliteral : Nesting.CrossesWithin Delimiters.all (· ≠ ',') (s.run Delimiters.all [' ', '=', ' ']) l.text :=
      l.crossesWithin hquote hmark hfirst.code (Int.le_of_eq hzero.symm) fun _ => hprevious
    exact hfirst.append hliteral.crosses

namespace FullParameter

variable (p : FullParameter)

theorem passable_value : Passable Delimiters.all (· ≠ ',') p.valueText := by
  unfold valueText
  cases p.value with
  | none => exact Shielded.nil.passable
  | some v => exact v.passable

/-- no comma of a parameter is at the top level -/
theorem passable_text : Passable Delimiters.all (· ≠ ',') p.text := by
  have htest : ∀ c : Char, c ≠ ',' → c ≠ ')' → c ≠ ',' := fun _ h _ => h
  have hattributes := (shielded_flatMap Attribute.shielded p.attributes).passable
  have hmodifiers := (shielded_flatMap ParameterModifier.shielded p.modifiers).passable
  have htype : Shielded Delimiters.all (· ≠ ',') p.type.render :=
    p.shielded_type (by decide) (by decide) htest (Or.inl (by decide))
  have hgap : Shielded Delimiters.all (· ≠ ',') p.gap.1 := .of_blanks (fun _ => ne_comma_of_isBlank) p.gap
  have hname : Shielded Delimiters.all (· ≠ ',') p.name.1 := p.shielded_name htest
  exact hattributes.append
    (hmodifiers.append (htype.passable.append (hgap.passable.append (hname.passable.append p.passable_value))))

end FullParameter

theorem Listed.passable_text (l : Listed) : Passable Delimiters.all (· ≠ ',') l.text := by
  have hblanks : ∀ b : Blanks, Passable Delimiters.all (· ≠ ',') b.1 :=
    fun b => (Shielded.of_blanks (fun _ => ne_comma_of_isBlank) b).passable
  exact ((hblanks l.before).append l.parameter.passable_text).append (hblanks l.after)

/-! ## One parameter -/

theorem dropAttributes?_cons {inner after : Text} (h : Shielded Delimiters.box (· ≠ ']') inner) :
    Outline.dropAttributes? ('[' :: (inner ++ ']' :: after)) = Outline.dropAttributes? (Text.trimStart after) := by
  have hcut := Nesting.cut?_append_cons h after
  rw [Outline.dropAttributes?]
  split
  · rename_i hcut'
    rw [hcut] at hcut'
    simp only [Option.some.injEq, Prod.mk.injEq, List.cons.injEq] at hcut'
    rw [hcut'.2.2]
  · rename_i hnone
    exact absurd hcut (hnone inner ']' after)

theorem startsSolid_attributes (attributes : List Attribute) {rest : Text} (hr : StartsSolid rest) :
    StartsSolid (attributes.flatMap Attribute.text ++ rest) := by
  cases attributes with
  | nil => exact hr
  | cons a attributes => exact ⟨'[', _, rfl, by decide⟩

theorem dropAttributes?_attributes (attributes : List Attribute) {rest : Text} (hr : StartsSolid rest) :
    Outline.dropAttributes? (attributes.flatMap Attribute.text ++ rest) = Outline.dropAttributes? rest := by
  induction attributes with
  | nil => rfl
  | cons a attributes ih =>
    have hbox : Shielded Delimiters.box (· ≠ ']') a.inner :=
      a.nested.weaken (by decide) fun c hc => hc .box (by decide)
    have htext : (a :: attributes).flatMap Attribute.text ++ rest =
        '[' :: (a.inner ++ ']' :: (a.after.1 ++ (attributes.flatMap Attribute.text ++ rest))) := by
      simp [Attribute.text]
    rw [htext, dropAttributes?_cons hbox, Text.trimStart_append a.after.2 (startsSolid_attributes attributes hr), ih]

/-- the first character of a word of the table -/
theorem ParameterModifier.exists_first (m : ParameterModifier) :
    ∃ c rest, m.text = c :: rest ∧ TypeTree.isNamePart c = true := by
  obtain ⟨hne, hchars⟩ := isNamePart_of_isParameterWord m.listed
  obtain ⟨c, rest, hword⟩ := List.exists_cons_of_ne_nil hne
  refine ⟨c, rest ++ m.gap.1, ?_, (hchars c (hword ▸ List.mem_cons_self)).1⟩
  rw [ParameterModifier.text, hword, List.cons_append]

theorem startsSolid_modifiers (modifiers : List ParameterModifier) {rest : Text} (hr : StartsSolid rest) :
    StartsSolid (modifiers.flatMap ParameterModifier.text ++ rest) := by
  cases modifiers with
  | nil => exact hr
  | cons m modifiers =>
    obtain ⟨c, word, htext, hc⟩ := m.exists_first
    rw [List.flatMap_cons, htext]
    exact ⟨c, _, rfl, TypeTree.not_blank_of_isNamePart hc⟩

theorem firstWord_modifier (m : ParameterModifier) (rest : Text) :
    Outline.firstWord (m.word ++ (m.gap.1 ++ rest)) = m.word := by
  obtain ⟨blank, gap, hgap⟩ := List.exists_cons_of_ne_nil m.gap_ne
  have hblank : Text.isBlank blank = true := m.gap.2 blank (hgap ▸ List.mem_cons_self)
  rw [hgap]
  refine Text.takeWhile_append_cons (fun c hc => ?_) (by simp [hblank])
  rw [TypeTree.not_blank_of_isNamePart ((isNamePart_of_isParameterWord m.listed).2 c hc).1]
  rfl

theorem dropModifiers_modifiers (modifiers : List ParameterModifier) {rest : Text} (hr : StartsSolid rest) :
    Outline.dropModifiers (modifiers.flatMap ParameterModifier.text ++ rest) = Outline.dropModifiers rest := by
  induction modifiers with
  | nil => rfl
  | cons m modifiers ih =>
    have htext : (m :: modifiers).flatMap ParameterModifier.text ++ rest =
        m.word ++ (m.gap.1 ++ (modifiers.flatMap ParameterModifier.text ++ rest)) := by
      simp [ParameterModifier.text]
    rw [htext, Outline.dropModifiers, firstWord_modifier, dif_pos m.listed, List.drop_left,
      Text.trimStart_append m.gap.2 (startsSolid_modifiers modifiers hr), ih]

namespace FullParameter

variable (p : FullParameter)

theorem startsSolid_modified (tail : Text) : StartsSolid (p.modified tail) :=
  startsSolid_modifiers p.modifiers (p.solid_type.1.append _)

theorem dropAttributes?_modified (tail : Text) : Outline.dropAttributes? (p.modified tail) = some (p.modified tail) := by
  unfold modified
  cases p.modifiers with
  | nil => exact p.dropAttributes?_append _
  | cons m modifiers =>
    obtain ⟨c, word, htext, hc⟩ := m.exists_first
    rw [List.flatMap_cons, htext]
    exact dropAttributes?_of_ne fun he => absurd (he ▸ hc) (by decide)

/-- up to the default value, and with what is left of it -/
theorem leadingType_modified (tail : Text) :
    Outline.leadingType (Outline.dropModifiers (p.modified tail)) = p.type.render := by
  obtain ⟨blank, gap, hgap⟩ := List.exists_cons_of_ne_nil p.gap_ne
  have hblank : Text.isBlank blank = true := p.gap.2 blank (hgap ▸ List.mem_cons_self)
  rw [modified, dropModifiers_modifiers p.modifiers (p.solid_type.1.append _), hgap, List.cons_append,
    p.dropModifiers_append hblank, p.leadingType_append hblank]

end FullParameter

namespace Listed

variable (l : Listed)

/-- blanks behind a parameter are trimmed off, and those at the end of its default value -/
theorem trim_text : Text.trim l.text = l.parameter.attributes.flatMap Attribute.text ++
    l.parameter.modified (Text.trimEnd (l.parameter.valueText ++ l.after.1)) := by
  obtain ⟨before, p, after⟩ := l
  have hname : EndsSolid (p.attributes.flatMap Attribute.text ++ p.modified []) := by
    unfold FullParameter.modified
    rw [List.append_nil]
    exact ((((TypeTree.solid_name p.name).2.append _).append _).append _).append _
  have hopen : ∀ tail, p.attributes.flatMap Attribute.text ++ p.modified tail =
      (p.attributes.flatMap Attribute.text ++ p.modified []) ++ tail := by
    intro tail
    simp [FullParameter.modified]
  have hstart : StartsSolid p.text := startsSolid_attributes p.attributes (p.startsSolid_modified _)
  calc Text.trim (Listed.text ⟨before, p, after⟩)
      = Text.trimEnd (Text.trimStart (before.1 ++ (p.text ++ after.1))) := by
        rw [← List.append_assoc]
        rfl
    _ = Text.trimEnd (p.text ++ after.1) := by rw [Text.trimStart_append before.2 (hstart.append _)]
    _ = Text.trimEnd ((p.attributes.flatMap Attribute.text ++ p.modified []) ++ (p.valueText ++ after.1)) := by
        rw [FullParameter.text, hopen, List.append_assoc]
    _ = p.attributes.flatMap Attribute.text ++ p.modified (Text.trimEnd (p.valueText ++ after.1)) := by
        rw [Text.trimEnd_append_left hname, ← hopen]

theorem trim_ne_nil : Text.trim l.text ≠ [] := by
  rw [trim_text]
  exact (startsSolid_attributes _ (l.parameter.startsSolid_modified _)).ne_nil

theorem typeOfParameter?_trim : Outline.typeOfParameter? (Text.trim l.text) = some l.parameter.type.render := by
  obtain ⟨hstart, hend⟩ := Text.solid_trim l.trim_ne_nil
  obtain ⟨htype, htypeEnd⟩ := l.parameter.solid_type
  have hdrop : Outline.dropAttributes? (Text.trim l.text) =
      some (l.parameter.modified (Text.trimEnd (l.parameter.valueText ++ l.after.1))) := by
    rw [trim_text, dropAttributes?_attributes _ (l.parameter.startsSolid_modified _),
      l.parameter.dropAttributes?_modified]
  simp [Outline.typeOfParameter?, Text.trim_eq_self hstart hend, hdrop, l.parameter.leadingType_modified,
    Text.trim_eq_self htype htypeEnd, htype.ne_nil]

end Listed

/-! ## The list -/

theorem split_listText (list : List Listed) :
    Nesting.split Delimiters.all ',' (listText list) = list.map fun l => Text.trim l.text := by
  by_cases hne : list = []
  · subst hne
    rfl
  · have hpassable : ∀ q ∈ list.map Listed.text, Passable Delimiters.all (· ≠ ',') q := by
      intro q hq
      obtain ⟨l, -, rfl⟩ := List.mem_map.1 hq
      exact l.passable_text
    rw [listText, Nesting.split_intercalate (by simpa using hne) hpassable, List.map_map]
    refine List.filter_eq_self.2 fun piece hpiece => ?_
    obtain ⟨l, -, rfl⟩ := List.mem_map.1 hpiece
    simpa using l.trim_ne_nil

/-- **A parameter list is read exactly**: it gives the trees of its types, one for each parameter, in order. -/
theorem parameterTypes_listText (list : List Listed) :
    Outline.parameterTypes (listText list) = list.map fun l => l.parameter.type.tree := by
  have htypes : (Outline.typeOfParameter? ∘ fun l : Listed => Text.trim l.text) =
      some ∘ fun l => l.parameter.type.render := funext Listed.typeOfParameter?_trim
  rw [Outline.parameterTypes, split_listText, List.filterMap_map, htypes, List.filterMap_eq_map, List.map_map]
  exact List.map_congr_left fun l _ => TypeTree.parse_shape l.parameter.type.shape l.parameter.type.marks

/-- a parameter with all its parts -/
example :
    let p : FullParameter := {
      type := ⟨.plain ⟨['B', 'a', 'r'], by decide⟩, [.nullable]⟩, name := ⟨['b'], by decide⟩
      chars := by decide, unmodified := by decide
      attributes := [⟨['I', 'n'], .append (.char (fun _ => rfl) trivial) (.char (fun _ => rfl) trivial),
        ⟨[' '], by decide⟩⟩]
      modifiers := [⟨"ref", by decide, ⟨[' '], by decide⟩, by decide⟩]
      gap := ⟨[' '], by decide⟩, gap_ne := by decide
      value := some (.literal ⟨.double, ['x', ',', 'y'], rfl⟩) }
    listText [⟨⟨[], by decide⟩, p, ⟨[], by decide⟩⟩] = ("[In] ref Bar? b = \"x,y\"" : Text) := by
  decide

end ClassAtlas.Signature
