/-
What a line must hold to declare a member.

A field needs an equals sign or a semicolon, a property a name before a curly bracket, a method or a constructor a
parenthesis, right behind which its match ends (`EndsBehind`). On a line without them the pattern has no match, whatever
else stands there.
-/
import ClassAtlas.Outline.Member
import ClassAtlas.Proofs.Pattern
import ClassAtlas.Proofs.Text
import ClassAtlas.Proofs.Word

namespace ClassAtlas.Outline

open Pattern

/-! ## The parts of a member are sound -/

theorem sound_someBlanks : Sound someBlanks := sound_spanAll _ _

theorem sound_blanks : Sound blanks := sound_spanAll _ _

theorem sound_identifier : Sound identifier := (sound_satisfy _).bind fun _ => sound_span _ _ _

theorem sound_attributes : Sound attributes :=
  Sound.upTo ((sound_satisfy _).bind fun _ => (sound_span _ _ _).bind fun _ => (sound_satisfy _).bind fun _ =>
    sound_blanks) 3

theorem sound_wordAndBlanks (words : List Text) : Sound (wordAndBlanks words) :=
  (sound_oneOf words).bind fun _ => sound_someBlanks

theorem sound_visibility : Sound visibility :=
  (sound_wordAndBlanks _).bind fun _ => (sound_wordAndBlanks _).optional

theorem sound_typeExpression : Sound typeExpression := by
  have harguments : Sound typeArguments :=
    sound_blanks.bind fun _ => (sound_satisfy _).bind fun _ => sound_closedBy _ _ _
  have hnamed : Sound namedType :=
    ((sound_satisfy _).bind fun _ => sound_span _ _ _).bind fun _ => harguments.optional
  have htuple : Sound tupleType := (sound_satisfy _).bind fun _ => (sound_span _ _ _).bind fun _ => sound_satisfy _
  have hrank : Sound rank := (sound_satisfy _).bind fun _ => (sound_span _ _ _).bind fun _ => sound_satisfy _
  have hquestion : Sound (Pattern.optional (char '?')) := (sound_satisfy _).optional
  exact (hnamed.or htuple).bind fun _ => hquestion.bind fun _ => (hrank.upTo 3).bind fun _ => hquestion

theorem sound_typeAndName : Sound typeAndName :=
  sound_typeExpression.capture.bind fun _ => sound_someBlanks.bind fun _ => sound_identifier.capture.bind fun _ =>
    sound_pure _

/-! ## Members after their modifiers -/

/-- a field from its type on -/
def fieldEnd : Pattern (Text × Text) := do
  let declared ← typeAndName
  blanks
  satisfy fun c => c == '=' || c == ';'
  return declared

theorem fieldPattern_eq :
    fieldPattern = (attributes >>= fun _ => upTo 6 (wordAndBlanks fieldModifiers) >>= fun _ => fieldEnd) := rfl

/-- a method from its result on -/
def methodEnd : Pattern Text := do
  let (type, _) ← typeAndName
  blanks
  Pattern.optional (angleList isTypeParameterChar 128)
  blanks
  char '('
  return type

theorem methodPattern_eq :
    methodPattern =
      (attributes >>= fun _ => visibility >>= fun _ => upTo 6 (wordAndBlanks methodModifiers) >>= fun _ => methodEnd) :=
  rfl

/-- a constructor from its name on -/
def constructorEnd : Pattern Text := do
  let declared ← capture identifier
  blanks
  char '('
  return declared

theorem constructorPattern_eq :
    constructorPattern = (attributes >>= fun _ => visibility >>= fun _ => constructorEnd) := rfl

/-! ## What is needed -/

theorem mem_of_mem_fieldPattern {s t r : Text} {v : Text × Text} (h : ⟨v, t, r⟩ ∈ fieldPattern s) :
    '=' ∈ s ∨ ';' ∈ s := by
  obtain ⟨_, s₁, _, hs₁, h₁⟩ := exists_suffix_of_bind sound_attributes h
  obtain ⟨_, s₂, _, hs₂, h₂⟩ := exists_suffix_of_bind ((sound_wordAndBlanks _).upTo 6) h₁
  obtain ⟨_, s₃, _, hs₃, h₃⟩ := exists_suffix_of_bind sound_typeAndName h₂
  obtain ⟨_, s₄, _, hs₄, h₄⟩ := exists_suffix_of_bind sound_blanks h₃
  obtain ⟨_, _, _, _, hend, -, -⟩ := mem_bind.1 h₄
  obtain ⟨c, hc, -, rfl⟩ := mem_satisfy.1 hend
  have hmem : c ∈ s := (hs₄.trans (hs₃.trans (hs₂.trans hs₁))).subset List.mem_cons_self
  simp only [Bool.or_eq_true, beq_iff_eq] at hc
  rcases hc with rfl | rfl
  · exact Or.inl hmem
  · exact Or.inr hmem

theorem exists_of_mem_propertyPattern {s t r : Text} {v : Text × Text} (h : ⟨v, t, r⟩ ∈ propertyPattern s) :
    ∃ a d gap b, s = a ++ d ++ gap ++ '{' :: b ∧ d ≠ [] ∧ (∀ c ∈ d, isNameChar c = true) ∧
      ∀ c ∈ gap, Text.isBlank c = true := by
  obtain ⟨_, s₁, _, hs₁, h₁⟩ := exists_suffix_of_bind sound_attributes h
  obtain ⟨_, s₂, _, hs₂, h₂⟩ := exists_suffix_of_bind ((sound_wordAndBlanks _).upTo 6) h₁
  obtain ⟨_, _, s₃, _, hdeclared, h₃, -⟩ := mem_bind.1 h₂
  -- the name is the last part of the type and the name
  obtain ⟨_, s₄, _, hs₄, h₄⟩ := exists_suffix_of_bind sound_typeExpression.capture hdeclared
  obtain ⟨_, s₅, _, hs₅, h₅⟩ := exists_suffix_of_bind sound_someBlanks h₄
  obtain ⟨_, d, _, _, hname, hpure, -⟩ := mem_bind.1 h₅
  obtain ⟨-, -, rfl⟩ := mem_pure.1 hpure
  obtain ⟨-, _, hname⟩ := mem_capture.1 hname
  obtain ⟨rfl, hrun, -⟩ := mem_identifier hname
  obtain ⟨_, gap, s₆, _, hgap, h₆, -⟩ := mem_bind.1 h₃
  obtain ⟨rfl, hblank, -⟩ := mem_spanAll hgap
  obtain ⟨_, _, b, _, hbrace, -, -⟩ := mem_bind.1 h₆
  obtain ⟨c, hc, -, rfl⟩ := mem_satisfy.1 hbrace
  obtain rfl : c = '{' := by simpa using hc
  obtain ⟨a, ha⟩ := hs₅.trans (hs₄.trans (hs₂.trans hs₁))
  exact ⟨a, d, gap, b, by rw [← ha]; simp, hrun.ne_nil, hrun.nameChars, hblank⟩

theorem endsBehind_methodPattern : EndsBehind '(' methodPattern := by
  have hangles : Sound (Pattern.optional (angleList isTypeParameterChar 128)) :=
    ((sound_satisfy _).bind fun _ => (sound_span _ _ _).bind fun _ => sound_satisfy _).optional
  have hend : EndsBehind '(' methodEnd :=
    sound_typeAndName.endsBehind fun _ => sound_blanks.endsBehind fun _ => hangles.endsBehind fun _ =>
      sound_blanks.endsBehind fun _ => endsBehind_char '(' _
  exact sound_attributes.endsBehind fun _ => sound_visibility.endsBehind fun _ =>
    ((sound_wordAndBlanks _).upTo 6).endsBehind fun _ => hend

theorem endsBehind_constructorPattern : EndsBehind '(' constructorPattern :=
  sound_attributes.endsBehind fun _ => sound_visibility.endsBehind fun _ => sound_identifier.capture.endsBehind fun _ =>
    sound_blanks.endsBehind fun _ => endsBehind_char '(' _

/-! ## Lines that declare a member -/

theorem memberType?_of_first? {line type name taken rest : Text}
    (h : fieldPattern.first? line = some ⟨(type, name), taken, rest⟩) (htype : Vocabulary.isNonTypeWord type = false)
    (hname : Vocabulary.isNonTypeWord name = false) : memberType? line = some (TypeTree.parse type) := by
  simp [memberType?, declaredType?, h, htype, hname]

theorem method?_of_first? {line type taken rest : Text} (h : methodPattern.first? line = some ⟨type, taken, rest⟩)
    (htype : Vocabulary.isNonTypeWord type = false) :
    method? line = some ⟨resultType? type, parametersAfter rest⟩ := by
  simp [method?, h, htype]

theorem constructor?_of_first? {line name taken rest : Text}
    (h : constructorPattern.first? line = some ⟨name, taken, rest⟩) :
    constructor? name line = some ⟨name, parametersAfter rest⟩ := by
  simp [constructor?, h]

/-! ## Lines that declare nothing -/

theorem method?_eq_none {line : Text} (h : '(' ∉ line) : method? line = none := by
  have hnone : methodPattern.first? line = none := first?_eq_none fun _ _ _ hm => by
    obtain ⟨before, -, rfl⟩ := endsBehind_methodPattern _ _ _ _ hm
    simp at h
  simp [method?, hnone]

theorem constructor?_eq_none {line : Text} (h : '(' ∉ line) (className : Text) :
    constructor? className line = none := by
  have hnone : constructorPattern.first? line = none := first?_eq_none fun _ _ _ hm => by
    obtain ⟨before, -, rfl⟩ := endsBehind_constructorPattern _ _ _ _ hm
    simp at h
  simp [constructor?, hnone]

/-- no field and no property: there is neither an end of a field nor a curly bracket after a name -/
theorem memberType?_eq_none {line : Text} (hfield : '=' ∉ line ∧ ';' ∉ line)
    (hproperty : ∀ a d gap b, line = a ++ d ++ gap ++ '{' :: b → d ≠ [] → (∀ c ∈ d, isNameChar c = true) →
      ¬ ∀ c ∈ gap, Text.isBlank c = true) : memberType? line = none := by
  have hf : fieldPattern.first? line = none :=
    first?_eq_none fun _ _ _ hm => (mem_of_mem_fieldPattern hm).elim hfield.1 hfield.2
  have hp : propertyPattern.first? line = none := first?_eq_none fun _ _ _ hm => by
    obtain ⟨a, d, gap, b, hs, hne, hchars, hblank⟩ := exists_of_mem_propertyPattern hm
    exact hproperty a d gap b hs hne hchars hblank
  simp [memberType?, declaredType?, hf, hp]

/-- a line that ends with a parenthesis before its only curly bracket: no property stands there -/
theorem memberType?_parenthesis {before : Text} (hvalue : '=' ∉ before) (hend : ';' ∉ before) (hcurly : '{' ∉ before) :
    memberType? (before ++ [')', ' ', '{']) = none := by
  have hline : before ++ [')', ' ', '{'] = (before ++ [')'] ++ [' ']) ++ '{' :: [] := by simp
  refine memberType?_eq_none ⟨by simpa using hvalue, by simpa using hend⟩ fun a d gap b hs hne hchars hgap => ?_
  have hbrace := Text.eq_of_append_cons_eq_concat (hs.symm.trans hline) (by simpa using hcurly)
  -- without the blanks both sides end right before the bracket: with a name, and with the parenthesis
  obtain ⟨name, e, rfl⟩ : ∃ name e, d = name ++ [e] := ⟨_, _, (List.dropLast_concat_getLast hne).symm⟩
  have he := hchars e (by simp)
  have hname : Text.EndsSolid (a ++ (name ++ [e])) := ⟨a ++ name, e, by simp, Text.not_isBlank_of_isNameChar he⟩
  have hclosed : Text.EndsSolid (before ++ [')']) := ⟨_, ')', rfl, by decide⟩
  have htrim := congrArg Text.trimEnd hbrace
  rw [Text.trimEnd_append hname hgap, Text.trimEnd_append hclosed (by decide), ← List.append_assoc] at htrim
  have hlast : e = ')' := by simpa using (List.append_inj' htrim rfl).2
  exact absurd (hlast ▸ he) (by decide)

end ClassAtlas.Outline
