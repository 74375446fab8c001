/-
Array ranks inside a list of type arguments.

The list is cut at commas outside angle and round brackets, so a comma inside an array rank cuts as well. What stands
between two commas is read as a type of its own: of `int[,]` there come `int[` and `]` (`cutAtRanks`). A list of named
types with marks after them gives exactly these parts, in angle brackets as in round ones, and one part for each type
under its own name exactly if no rank holds a comma (`parse_ranked`).
-/
import ClassAtlas.Proofs.TypeTree.RoundTrip

namespace ClassAtlas.Nesting

variable {counted : Delimiters} {separator : Char}

/-! ## Splitting text without counted characters -/

theorem consFirst_eq_modifyHead (c : Char) {pieces : List Text} (h : pieces ≠ []) :
    Text.consFirst c pieces = pieces.modifyHead (c :: ·) := by
  obtain ⟨piece, pieces, rfl⟩ := List.exists_cons_of_ne_nil h
  rfl

/-- where no character counts, every separator cuts -/
theorem piecesFrom_plain {text : Text} (h : ∀ c ∈ text, Plain counted c) {s : State} (hs : s.mode = .code)
    (h0 : s.levels.total = 0) : piecesFrom counted separator s text = text.splitOn separator := by
  induction text generalizing s with
  | nil => rfl
  | cons c text ih =>
    have htop : s.atTop = true := by rw [atTop_code hs, h0]; rfl
    have hplain := List.forall_mem_cons.1 h
    rw [piecesFrom, htop, Bool.true_and, List.splitOn_cons_eq_if_modifyHead]
    split
    · rw [ih hplain.2 hs h0]
    · have hrest := ih hplain.2 (s := { s with previous := some c }) hs h0
      rw [step_plain hplain.1 hs, hrest, consFirst_eq_modifyHead c (List.splitOn_ne_nil separator text)]

theorem split_plain {text : Text} (h : ∀ c ∈ text, Plain counted c) :
    split counted separator text = ((text.splitOn separator).map Text.trim).filter fun piece => !piece.isEmpty := by
  rw [split, piecesFrom_plain h rfl rfl]

/-- a separator between two texts cuts them apart -/
theorem split_plain_append (hs : Plain counted separator) {a b : Text} (ha : ∀ c ∈ a, Plain counted c)
    (hb : ∀ c ∈ b, Plain counted c) :
    split counted separator (a ++ separator :: b) = split counted separator a ++ split counted separator b := by
  have hall : ∀ c ∈ a ++ separator :: b, Plain counted c := by
    intro c hc
    rcases List.mem_append.1 hc with hc | hc
    · exact ha c hc
    · rcases List.mem_cons.1 hc with rfl | hc
      · exact hs
      · exact hb c hc
  rw [split_plain hall, split_plain ha, split_plain hb, List.splitOn_append_cons_self, List.map_append,
    List.filter_append]

theorem split_nil : split counted separator [] = [] := rfl

/-- separators alone give no piece -/
theorem split_replicate_append (hs : Plain counted separator) (n : Nat) {b : Text} (hb : ∀ c ∈ b, Plain counted c) :
    split counted separator (List.replicate n separator ++ b) = split counted separator b := by
  induction n with
  | zero => rfl
  | succ n ih =>
    have hrest : ∀ c ∈ List.replicate n separator ++ b, Plain counted c := by
      intro c hc
      rcases List.mem_append.1 hc with hc | hc
      · obtain rfl := List.eq_of_mem_replicate hc
        exact hs
      · exact hb c hc
    have hcut := split_plain_append (a := []) hs (List.forall_mem_nil _) hrest
    rw [split_nil, List.nil_append, List.nil_append] at hcut
    rw [List.replicate_succ, List.cons_append, hcut, ih]

/-- a list of texts is split one text after the other -/
theorem split_plain_intercalate (hs : Plain counted separator) {texts : List Text}
    (h : ∀ t ∈ texts, ∀ c ∈ t, Plain counted c) :
    split counted separator (List.intercalate [separator] texts) = texts.flatMap (split counted separator) := by
  induction texts with
  | nil => rfl
  | cons t texts ih =>
    have hfirst := h t List.mem_cons_self
    have hothers : ∀ u ∈ texts, ∀ c ∈ u, Plain counted c := fun u hu => h u (List.mem_cons_of_mem t hu)
    cases texts with
    | nil => simp
    | cons u texts =>
      rw [List.intercalate_cons_cons, List.append_assoc, List.singleton_append,
        split_plain_append hs hfirst (Text.forall_mem_intercalate (by simpa using hs) hothers), ih hothers,
        ← List.flatMap_cons]

end ClassAtlas.Nesting

namespace ClassAtlas.TypeTree

open Nesting (Delimiters Plain Shielded)
open Text (Blanks)

/-! ## Parts of an argument -/

/-- a character that neither separates nor groups arguments -/
def isPartChar (c : Char) : Bool := isNamePart c || c == '?' || c == '[' || c == ']'

/-- what may stand between two commas of a list of ranked arguments -/
def IsPart (part : Text) : Prop := part ≠ [] ∧ ∀ c ∈ part, isPartChar c = true

theorem isPartChar_cases {c : Char} (h : isPartChar c = true) : isNamePart c = true ∨ c = '?' ∨ c = '[' ∨ c = ']' := by
  simp only [isPartChar, Bool.or_eq_true, beq_iff_eq] at h
  tauto

theorem not_blank_of_isPartChar {c : Char} (h : isPartChar c = true) : Text.isBlank c = false := by
  rcases isPartChar_cases h with h | rfl | rfl | rfl
  · exact not_blank_of_isNamePart h
  all_goals decide

theorem plain_of_isPartChar {c : Char} (h : isPartChar c = true) : Plain Delimiters.grouping c := by
  apply plain_grouping
  refine ⟨?_, ?_, ?_, ?_⟩ <;> exact fun he => absurd (he ▸ h) (by decide)

namespace IsPart

variable {part : Text}

theorem of_name (name : Name) : IsPart name.1 :=
  ⟨name.2.1, fun c hc => by simp [isPartChar, name.2.2 c hc]⟩

theorem append (h : IsPart part) {more : Text} (hm : ∀ c ∈ more, isPartChar c = true) : IsPart (part ++ more) := by
  refine ⟨fun he => h.1 (List.append_eq_nil_iff.1 he).1, fun c hc => ?_⟩
  rcases List.mem_append.1 hc with hc | hc
  · exact h.2 c hc
  · exact hm c hc

theorem solid (h : IsPart part) : Text.StartsSolid part ∧ Text.EndsSolid part :=
  Text.solid_of_forall h.1 fun c hc => not_blank_of_isPartChar (h.2 c hc)

theorem isPiece (h : IsPart part) : Nesting.IsPiece Delimiters.grouping ',' part where
  starts := h.solid.1
  ends := h.solid.2
  shielded := .of_forall fun c hc =>
    ⟨plain_of_isPartChar (h.2 c hc), fun he => absurd (he ▸ h.2 c hc) (by decide)⟩

theorem split_eq (h : IsPart part) (before after : Blanks) :
    Nesting.split Delimiters.grouping ',' (before.1 ++ part ++ after.1) = [part] := by
  have hpiece : ∀ p ∈ [Nesting.Padded.mk before part after], Nesting.IsPiece Delimiters.grouping ',' p.piece := by
    intro p hp
    obtain rfl := List.mem_singleton.1 hp
    exact h.isPiece
  have hone := Nesting.split_padded (by decide) (List.cons_ne_nil _ _) hpiece
  simpa [Nesting.Padded.text] using hone

end IsPart

theorem dropMarks_suffix (backward : Text) : dropMarks backward <:+ backward := by
  fun_induction dropMarks backward with
  | case1 b rest hb ih =>
    have hrest : '?' :: rest <:+ b := hb ▸ List.dropWhile_suffix Text.isBlank
    exact ih.trans ((List.suffix_cons '?' rest).trans hrest)
  | case2 b rest hb skipped before hs ih =>
    have hrest : ']' :: rest <:+ b := hb ▸ List.dropWhile_suffix Text.isBlank
    have hbefore : before <:+ rest := ⟨skipped ++ ['['], by simp [Text.splitFirst?_eq_some hs]⟩
    exact ih.trans (hbefore.trans ((List.suffix_cons ']' rest).trans hrest))
  | case3 b rest hb hs => exact hb ▸ List.dropWhile_suffix Text.isBlank
  | case4 b h1 h2 => exact List.dropWhile_suffix Text.isBlank

theorem withoutMarks_isPrefix (s : Text) : withoutMarks s <+: s := by
  have h := List.reverse_prefix.2 (dropMarks_suffix s.reverse)
  rwa [List.reverse_reverse] at h

/-- a part is a type of its own, whatever its brackets -/
theorem parse_part {part : Text} (h : IsPart part) : parse (elementType part) = leaf part := by
  have helement : elementType ([] ++ part) = [] ++ part :=
    elementType_eq_self (Or.inl rfl) fun c hc => not_blank_of_isPartChar (h.2 c hc)
  have hround : insideTuple? (withoutMarks part) = none := by
    unfold insideTuple?
    split
    · rename_i rest heq
      have hmem : '(' ∈ part := (withoutMarks_isPrefix part).subset (heq ▸ List.mem_cons_self)
      exact absurd (h.2 _ hmem) (by decide)
    · rfl
  have hangle : '<' ∉ part := fun hmem => absurd (h.2 _ hmem) (by decide)
  have hnone : arguments? part = none := by
    rw [arguments?, hround]
    simp only [insideAngles?, Text.splitFirst?_eq_none_iff.2 hangle]
    rfl
  rw [List.nil_append] at helement
  rw [helement, parse_eq, Text.trim_eq_self h.solid.1 h.solid.2, hnone]

/-! ## Cutting at the ranks -/

/-- the parts of an argument that has these marks: a rank with commas ends one part and begins the next -/
def cutAtRanks (part : Text) : List Mark → List Text
  | [] => [part]
  | .nullable :: marks => cutAtRanks (part ++ ['?']) marks
  | .rank 0 :: marks => cutAtRanks (part ++ ['[', ']']) marks
  | .rank (_ + 1) :: marks => (part ++ ['[']) :: cutAtRanks [']'] marks

theorem isPart_cutAtRanks {part : Text} (h : IsPart part) (marks : List Mark) :
    ∀ p ∈ cutAtRanks part marks, IsPart p := by
  fun_induction cutAtRanks part marks with
  | case1 part =>
    intro p hp
    obtain rfl := List.mem_singleton.1 hp
    exact h
  | case2 part marks ih => exact ih (h.append (by decide))
  | case3 part marks ih => exact ih (h.append (by decide))
  | case4 part commas marks ih => exact List.forall_mem_cons.2 ⟨h.append (by decide), ih ⟨by decide, by decide⟩⟩

/-- each rank with commas makes one part more -/
theorem length_cutAtRanks (part : Text) (marks : List Mark) :
    (cutAtRanks part marks).length = 1 + marks.countP (!·.isSimple) := by
  fun_induction cutAtRanks part marks with
  | case1 part => rfl
  | case2 part marks ih => simpa [Mark.isSimple] using ih
  | case3 part marks ih => simpa [Mark.isSimple] using ih
  | case4 part commas marks ih => simp [Mark.isSimple, ih, Nat.add_comm]

theorem cutAtRanks_simple (part : Text) {marks : List Mark} (h : ∀ m ∈ marks, m.isSimple = true) :
    cutAtRanks part marks = [part ++ marksText marks] := by
  fun_induction cutAtRanks part marks with
  | case1 part => simp [marksText]
  | case2 part marks ih => simpa [marksText, Mark.text] using ih fun m hm => h m (List.mem_cons_of_mem _ hm)
  | case3 part marks ih => simpa [marksText, Mark.text] using ih fun m hm => h m (List.mem_cons_of_mem _ hm)
  | case4 part commas marks ih => exact absurd (h _ List.mem_cons_self) (by simp [Mark.isSimple])

theorem plain_marksText (marks : List Mark) : ∀ c ∈ marksText marks, Plain Delimiters.grouping c := by
  intro c hc
  apply plain_grouping
  rcases mem_marksText hc with rfl | rfl | rfl | rfl <;> decide

theorem plain_blanks (blanks : Blanks) : ∀ c ∈ blanks.1, Plain Delimiters.grouping c :=
  fun c hc => Nesting.plain_of_isBlank _ (blanks.2 c hc)

/-- the comma of the list also cuts inside a rank -/
theorem split_marks {part : Text} (h : IsPart part) (before : Blanks) (marks : List Mark) (after : Blanks) :
    Nesting.split Delimiters.grouping ',' (before.1 ++ (part ++ marksText marks) ++ after.1) =
      cutAtRanks part marks := by
  fun_induction cutAtRanks part marks generalizing before with
  | case1 part => simpa [marksText] using h.split_eq before after
  | case2 part marks ih => simpa [marksText, Mark.text] using ih (h.append (by decide)) before
  | case3 part marks ih => simpa [marksText, Mark.text] using ih (h.append (by decide)) before
  | case4 part commas marks ih =>
    -- the first comma ends this part, the others hold nothing between them, and the next part begins at the bracket
    have hend : IsPart (part ++ ['[']) := h.append (by decide)
    have hnext := ih ⟨by decide, by decide⟩ ⟨[], List.forall_mem_nil _⟩
    have hcomma : Plain Delimiters.grouping ',' := plain_grouping (by decide)
    have hfirst : ∀ c ∈ before.1 ++ (part ++ ['[']), Plain Delimiters.grouping c := by
      intro c hc
      rcases List.mem_append.1 hc with hc | hc
      · exact plain_blanks before c hc
      · exact plain_of_isPartChar (hend.2 c hc)
    have hrest : ∀ c ∈ ']' :: marksText marks ++ after.1, Plain Delimiters.grouping c := by
      intro c hc
      rcases List.mem_append.1 hc with hc | hc
      · rcases List.mem_cons.1 hc with rfl | hc
        · exact plain_grouping (by decide)
        · exact plain_marksText marks c hc
      · exact plain_blanks after c hc
    have hothers : ∀ c ∈ List.replicate commas ',' ++ (']' :: marksText marks ++ after.1),
        Plain Delimiters.grouping c := by
      intro c hc
      rcases List.mem_append.1 hc with hc | hc
      · exact List.eq_of_mem_replicate hc ▸ hcomma
      · exact hrest c hc
    have htext : before.1 ++ (part ++ marksText (.rank (commas + 1) :: marks)) ++ after.1 =
        (before.1 ++ (part ++ ['['])) ++ ',' :: (List.replicate commas ',' ++ (']' :: marksText marks ++ after.1)) := by
      simp [marksText, Mark.text, List.replicate_succ]
    have hone := hend.split_eq before ⟨[], List.forall_mem_nil _⟩
    rw [List.append_nil] at hone
    rw [htext, Nesting.split_plain_append hcomma hfirst hothers, hone,
      Nesting.split_replicate_append hcomma commas hrest]
    simpa using hnext

/-! ## Lists of ranked arguments -/

/-- a named type with marks after it, and the blanks around it; the name has no mark of a scope -/
structure RankedArgument where
  before : Blanks
  name : Name
  unscoped : ':' ∉ name.1
  marks : List Mark
  after : Blanks

namespace RankedArgument

def text (a : RankedArgument) : Text := a.before.1 ++ (a.name.1 ++ marksText a.marks) ++ a.after.1

/-- the list as it is written -/
def listText (arguments : List RankedArgument) : Text := List.intercalate [','] (arguments.map text)

/-- the parts of the arguments between the commas -/
def parts (a : RankedArgument) : List Text := cutAtRanks a.name.1 a.marks

/-- no rank of the argument holds a comma -/
def IsSimple (a : RankedArgument) : Prop := ∀ m ∈ a.marks, m.isSimple = true

theorem plain_text (a : RankedArgument) : ∀ c ∈ a.text, Plain Delimiters.grouping c := by
  intro c hc
  rcases List.mem_append.1 hc with hc | hc
  · rcases List.mem_append.1 hc with hc | hc
    · exact plain_blanks a.before c hc
    · rcases List.mem_append.1 hc with hc | hc
      · exact plain_of_isPartChar ((IsPart.of_name a.name).2 c hc)
      · exact plain_marksText a.marks c hc
  · exact plain_blanks a.after c hc

theorem plain_listText (arguments : List RankedArgument) : ∀ c ∈ listText arguments, Plain Delimiters.grouping c := by
  refine Text.forall_mem_intercalate (by simpa using plain_grouping (by decide)) fun t ht => ?_
  obtain ⟨a, -, rfl⟩ := List.mem_map.1 ht
  exact a.plain_text

theorem argumentTrees_listText (arguments : List RankedArgument) :
    argumentTrees (listText arguments) = (arguments.flatMap parts).map leaf := by
  have hlist : argumentList (listText arguments) = arguments.flatMap parts := by
    have htexts : ∀ t ∈ arguments.map text, ∀ c ∈ t, Plain Delimiters.grouping c := by
      intro t ht
      obtain ⟨a, -, rfl⟩ := List.mem_map.1 ht
      exact a.plain_text
    rw [argumentList, listText, Nesting.split_plain_intercalate (plain_grouping (by decide)) htexts, List.flatMap_map]
    exact congrArg arguments.flatMap (funext fun a => split_marks (IsPart.of_name a.name) a.before a.marks a.after)
  rw [argumentTrees, hlist]
  refine List.map_congr_left fun part hpart => ?_
  obtain ⟨a, -, hmem⟩ := List.mem_flatMap.1 hpart
  exact parse_part (isPart_cutAtRanks (IsPart.of_name a.name) a.marks part hmem)

theorem parse_angles (outer : Name) (arguments : List RankedArgument) (marks : List Mark) :
    parse (outer.1 ++ '<' :: listText arguments ++ ['>'] ++ marksText marks) =
      node outer.1 ((arguments.flatMap parts).map leaf) := by
  have hstart : Text.StartsSolid (outer.1 ++ '<' :: listText arguments ++ ['>'] ++ marksText marks) :=
    (((solid_name outer).1.append _).append _).append _
  have hend := endsSolid_marksText ⟨outer.1 ++ '<' :: listText arguments, '>', rfl, by decide⟩ marks
  rw [parse_eq, Text.trim_eq_self hstart hend, arguments?_angles]
  simp only [argumentTrees_listText]

theorem parse_rounds (arguments : List RankedArgument) (marks : List Mark) :
    parse ('(' :: listText arguments ++ [')'] ++ marksText marks) = node [] ((arguments.flatMap parts).map leaf) := by
  have hstart : Text.StartsSolid ('(' :: listText arguments ++ [')'] ++ marksText marks) := ⟨'(', _, rfl, by decide⟩
  have hend := endsSolid_marksText ⟨'(' :: listText arguments, ')', rfl, by decide⟩ marks
  have hround : Shielded Delimiters.round (· ≠ ')') (listText arguments) := by
    refine .of_forall fun c hc => ?_
    have hplain := plain_listText arguments c hc
    exact ⟨hplain.mono (by decide), (hplain.ne.2 .round (by decide)).2⟩
  rw [parse_eq, Text.trim_eq_self hstart hend, arguments?_rounds hround]
  simp only [argumentTrees_listText]

/-- the marks are no part of the name -/
theorem nominalName_marks (a : RankedArgument) : nominalName (a.name.1 ++ marksText a.marks) = a.name.1 := by
  have hstart := (solid_name a.name).1
  have hend := endsSolid_marksText (solid_name a.name).2 a.marks
  have hmark : ¬ globalMark.isPrefixOf (a.name.1 ++ marksText a.marks) = true := by
    intro h
    have hmem : ':' ∈ a.name.1 ++ marksText a.marks := (List.isPrefixOf_iff_prefix.1 h).subset (by decide)
    rcases List.mem_append.1 hmem with hmem | hmem
    · exact a.unscoped hmem
    · exact absurd (mem_marksText hmem) (by decide)
  have hangle : ∀ c ∈ a.name.1 ++ marksText a.marks, (c != '<') = true := by
    intro c hc
    rw [bne_iff_ne]
    intro he
    rcases List.mem_append.1 (he ▸ hc) with hc | hc
    · exact absurd (a.name.2.2 _ hc) (by decide)
    · exact absurd (mem_marksText hc) (by decide)
  rw [nominalName, Text.trim_eq_self (hstart.append _) hend, dropGlobalMark, if_neg hmark,
    List.takeWhile_eq_self_iff.2 hangle]
  exact (Shape.plain a.name).withoutMarks_render a.marks

theorem length_parts (arguments : List RankedArgument) :
    (arguments.flatMap parts).length = arguments.length + (arguments.flatMap marks).countP (!·.isSimple) := by
  induction arguments with
  | nil => rfl
  | cons a arguments ih =>
    rw [List.flatMap_cons, List.length_append, ih, parts, length_cutAtRanks, List.flatMap_cons, List.countP_append,
      List.length_cons]
    omega

theorem parts_of_isSimple {a : RankedArgument} (h : a.IsSimple) : a.parts = [a.name.1 ++ marksText a.marks] :=
  cutAtRanks_simple a.name.1 h

/-- one part for each argument, under its own name -/
theorem nominalNames_eq_iff (arguments : List RankedArgument) :
    (arguments.flatMap parts).map nominalName = arguments.map (·.name.1) ↔ ∀ a ∈ arguments, a.IsSimple := by
  refine ⟨fun h a ha m hm => ?_, fun h => ?_⟩
  · -- a rank with a comma makes more parts than arguments
    have hlength := congrArg List.length h
    rw [List.length_map, List.length_map, length_parts] at hlength
    have hnone : (arguments.flatMap marks).countP (!·.isSimple) = 0 := by omega
    have hmark := List.countP_eq_zero.1 hnone m (List.mem_flatMap.2 ⟨a, ha, hm⟩)
    simpa using hmark
  · induction arguments with
    | nil => rfl
    | cons a arguments ih =>
      have hothers := ih fun b hb => h b (List.mem_cons_of_mem a hb)
      rw [List.flatMap_cons, parts_of_isSimple (h a List.mem_cons_self), List.map_append, hothers, List.map_cons,
        nominalName_marks]
      rfl

end RankedArgument

open RankedArgument (listText parts)

/-- **an array rank splits the argument it stands after exactly if it holds a comma**: otherwise each argument has a
tree of its own and is known under its name -/
theorem parse_ranked (outer : Name) (arguments : List RankedArgument) (marks : List Mark) :
    parse (outer.1 ++ '<' :: listText arguments ++ ['>'] ++ marksText marks) =
        node outer.1 ((arguments.flatMap parts).map leaf) ∧
      parse ('(' :: listText arguments ++ [')'] ++ marksText marks) = node [] ((arguments.flatMap parts).map leaf) ∧
      (((arguments.flatMap parts).map leaf).map (fun child => nominalName child.base) = arguments.map (·.name.1) ↔
        ∀ a ∈ arguments, a.IsSimple) := by
  refine ⟨RankedArgument.parse_angles outer arguments marks, RankedArgument.parse_rounds arguments marks, ?_⟩
  rw [List.map_map]
  exact RankedArgument.nominalNames_eq_iff arguments

/-- of `Dictionary<int[,], Foo>` three arguments are read -/
theorem ranks_split_arguments : ¬ ∀ (outer : Name) (arguments : List RankedArgument),
    (parse (outer.1 ++ '<' :: listText arguments ++ ['>'])).children.length = arguments.length := by
  intro h
  obtain ⟨outer, arguments, hmore⟩ : ∃ (_ : Name) (arguments : List RankedArgument),
      (arguments.flatMap parts).length ≠ arguments.length :=
    ⟨⟨"Dictionary", by decide⟩, [⟨⟨[], by decide⟩, ⟨"int", by decide⟩, by decide, [.rank 1], ⟨[], by decide⟩⟩,
      ⟨⟨[' '], by decide⟩, ⟨"Foo", by decide⟩, by decide, [], ⟨[], by decide⟩⟩], by decide⟩
  have hread := RankedArgument.parse_angles outer arguments []
  rw [marksText, List.flatMap_nil, List.append_nil] at hread
  have hcount := h outer arguments
  rw [hread, children, List.length_map] at hcount
  exact hmore hcount

end ClassAtlas.TypeTree
