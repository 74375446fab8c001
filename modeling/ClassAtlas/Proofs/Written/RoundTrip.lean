/-
Reading undoes writing.

A file is written in any layout and read back through the same stages as any source text: the canonical lines are the
lines that were written, the scope and the imports stand on lines of their own, each class is one chunk, and each line
of a class declares the member it was written for. `ofText_render` puts the stages together.
-/
import ClassAtlas.Proofs.Written.Line

namespace ClassAtlas.Written

open Outline (Declared)
open Source (declares)

/-! ## Classes -/

/-- the first line of a member declares it, and braces declare nothing -/
theorem Member.declaredOn_lines (n : Identifier) (m : Member) :
    ∃ braces, (m.lines n).map (Outline.declaredOn n.1) = ⟨m.type?, m.method?, m.constructor? n.1⟩ :: braces ∧
      ∀ d ∈ braces, d = ⟨none, none, none⟩ := by
  cases m with
  | field type name =>
    refine ⟨[], ?_, by simp⟩
    simp only [Member.lines, List.map_cons, List.map_nil, declaredOn_fieldLine]
    rfl
  | constructor parameters =>
    refine ⟨[⟨none, none, none⟩], ?_, by simp⟩
    simp only [Member.lines, List.map_cons, List.map_nil, declaredOn_constructorLine, declaredOn_braceLine]
    rfl
  | method result name parameters =>
    refine ⟨[⟨none, none, none⟩], ?_, by simp⟩
    simp only [Member.lines, List.map_cons, List.map_nil, declaredOn_methodLine, declaredOn_braceLine]
    rfl

theorem Member.filterMap_lines {α : Type} (n : Identifier) (m : Member) (kind : Declared → Option α)
    (hkind : kind ⟨none, none, none⟩ = none) :
    ((m.lines n).map (Outline.declaredOn n.1)).filterMap kind =
      (kind ⟨m.type?, m.method?, m.constructor? n.1⟩).toList := by
  obtain ⟨braces, hlines, hbraces⟩ := m.declaredOn_lines n
  have hnone : braces.filterMap kind = [] := List.filterMap_eq_nil_iff.2 fun d hd => hbraces d hd ▸ hkind
  rw [hlines, List.filterMap_cons, hnone]
  cases kind ⟨m.type?, m.method?, m.constructor? n.1⟩ <;> rfl

namespace Class

variable (c : Class)

theorem classMatch?_header : ∃ taken, Source.classMatch? c.header =
    some ⟨c.name.1, taken, basesText c.bases ++ [' ', '{']⟩ := by
  obtain ⟨rest, hrest⟩ := exists_space_basesText c.bases
  have hstops : Pattern.Stops Text.isWord (basesText c.bases ++ [' ', '{']) := by
    rw [hrest]
    exact Pattern.stops_cons (by decide) rest
  obtain ⟨taken, hfirst⟩ := Source.first?_classPattern (isRun_of_isIdentifier c.name.2.1) c.name.2.2 hstops
  exact ⟨taken, Signature.classMatch?_modifiers hfirst c.isStatement_header.starts.ne_nil []⟩

theorem filterMap_body {α : Type} (kind : Declared → Option α) (hkind : kind ⟨none, none, none⟩ = none) :
    (c.body.map (Outline.declaredOn c.name.1)).filterMap kind =
      c.members.filterMap fun m => kind ⟨m.type?, m.method?, m.constructor? c.name.1⟩ := by
  have hbrace : ([braceLine].map (Outline.declaredOn c.name.1)).filterMap kind = [] := by
    simp [declaredOn_braceLine, hkind]
  rw [body, List.map_append, List.filterMap_append, hbrace, List.append_nil, List.map_flatMap, List.filterMap_flatMap,
    List.filterMap_eq_flatMap_toList]
  exact List.flatMap_congr fun m _ => m.filterMap_lines c.name kind hkind

theorem createdIn_lines : Outline.createdIn (List.intercalate ['\n'] c.lines) = [] := by
  have hne : c.lines ≠ [] := List.cons_ne_nil c.header c.body
  refine Outline.createdIn_eq_nil ?_
  rw [Text.words_intercalate (by decide) hne, List.mem_flatMap]
  rintro ⟨line, hline, hnew⟩
  rcases List.mem_cons.1 hline with rfl | hline
  · exact c.new_not_mem_header hnew
  · exact (c.isBodyLine line hline).clean.not_mem_words (by decide) hnew

theorem calledIn_lines : Outline.calledIn (List.intercalate ['\n'] c.lines) = [] := by
  refine Outline.calledIn_eq_nil (.intercalate (by decide) fun line hline => ?_)
  rcases List.mem_cons.1 hline with rfl | hline
  · exact c.callFree_header
  · exact (c.isBodyLine line hline).callFree

/-- **a written class is read back** -/
theorem ofLines?_lines : Outline.ofLines? c.lines = some c.outline := by
  obtain ⟨taken, hmatch⟩ := c.classMatch?_header
  have hcreated := c.createdIn_lines
  have hcalled := c.calledIn_lines
  rw [lines] at hcreated hcalled ⊢
  simp only [Outline.ofLines?, hmatch, Option.bind_eq_bind, Option.bind_some, Option.pure_def, hcreated, hcalled,
    basesOf?_basesText, primaryParameters?_basesText, Option.map_none, Option.toList_none, List.nil_append]
  rw [c.filterMap_body Declared.constructor rfl, c.filterMap_body Declared.method rfl,
    c.filterMap_body Declared.memberType rfl]
  rfl

theorem declares_header : declares c.header = true := by
  obtain ⟨taken, hmatch⟩ := c.classMatch?_header
  rw [declares, hmatch]
  rfl

theorem declares_body : ∀ line ∈ c.body, declares line = false := fun line hline =>
  Source.declares_eq_false ((c.isBodyLine line hline).clean.not_mem_words (by decide))

end Class

theorem chunks_classes (classes : List Class) :
    Source.chunks (classes.flatMap Class.lines) = classes.map Class.lines := by
  induction classes with
  | nil => rfl
  | cons c classes ih =>
    have hnext : ∀ line ∈ (classes.flatMap Class.lines).head?, declares line = true := by
      cases classes with
      | nil => simp
      | cons d classes => simpa [Class.lines] using d.declares_header
    rw [List.flatMap_cons, Class.lines, List.cons_append,
      Source.chunks_class c.declares_header c.declares_body hnext, ih]
    rfl

/-! ## Files -/

theorem unscoped {line : Text} {c : Char} (h : line.head? = some c) (hc : c ≠ 'n' ∧ c ≠ 'g' ∧ c ≠ 'u') :
    Source.namespaceOf? line = none ∧ Source.importOf? line = none := by
  have hne : ∀ d, c ≠ d → line.head? ≠ some d := fun d hd => by simpa [h] using hd
  exact ⟨namespaceOf?_eq_none (hne _ hc.1), importOf?_eq_none (hne _ hc.2.1) (hne _ hc.2.2)⟩

theorem unscoped_classes (classes : List Class) : ∀ line ∈ classes.flatMap Class.lines,
    Source.namespaceOf? line = none ∧ Source.importOf? line = none := by
  intro line hline
  obtain ⟨c, -, hline⟩ := List.mem_flatMap.1 hline
  rcases List.mem_cons.1 hline with rfl | hline
  · have hstart : c.header.head? = some 'c' := rfl
    exact unscoped hstart (by decide)
  · rcases (c.isBodyLine line hline).start with hstart | hstart
    · exact unscoped hstart (by decide)
    · exact unscoped hstart (by decide)

namespace File

variable (f : File)

theorem scopeOf_lines : Source.scopeOf f.lines = (f.scope.map Subtype.val).getD [] := by
  have himports : (f.imports.map importLine).findSome? Source.namespaceOf? = none := by
    refine List.findSome?_eq_none_iff.2 fun line hline => ?_
    obtain ⟨name, -, rfl⟩ := List.mem_map.1 hline
    have hhead : (importLine name).head? = some 'u' := rfl
    exact namespaceOf?_eq_none (by simp [hhead])
  have hclasses : (f.classes.flatMap Class.lines).findSome? Source.namespaceOf? = none :=
    List.findSome?_eq_none_iff.2 fun line hline => (unscoped_classes f.classes line hline).1
  rw [Source.scopeOf, lines, List.findSome?_append, List.findSome?_append, himports, hclasses]
  cases f.scope with
  | none => rfl
  | some name => simp [namespaceOf?_scopeLine]

theorem importsOf_lines : Source.importsOf f.lines = f.imports.map Subtype.val := by
  have himports : (f.imports.map importLine).filterMap Source.importOf? = f.imports.map Subtype.val := by
    simp only [List.filterMap_map, Function.comp_def, importOf?_importLine, List.filterMap_eq_map']
  have hscope : (f.scope.toList.map scopeLine).filterMap Source.importOf? = [] := by
    refine List.filterMap_eq_nil_iff.2 fun line hline => ?_
    obtain ⟨name, -, rfl⟩ := List.mem_map.1 hline
    have hhead : (scopeLine name).head? = some 'n' := rfl
    exact importOf?_eq_none (by simp [hhead]) (by simp [hhead])
  have hclasses : (f.classes.flatMap Class.lines).filterMap Source.importOf? = [] :=
    List.filterMap_eq_nil_iff.2 fun line hline => (unscoped_classes f.classes line hline).2
  rw [Source.importsOf, lines, List.filterMap_append, List.filterMap_append, himports, hscope, hclasses]
  simp

theorem chunks_lines : Source.chunks f.lines = f.classes.map Class.lines := by
  have himports : ∀ line ∈ f.imports.map importLine, declares line = false := by
    intro line hline
    obtain ⟨name, -, rfl⟩ := List.mem_map.1 hline
    exact declares_dotted (by decide) (by decide) name
  have hscope : ∀ line ∈ f.scope.toList.map scopeLine, declares line = false := by
    intro line hline
    obtain ⟨name, -, rfl⟩ := List.mem_map.1 hline
    exact declares_dotted (by decide) (by decide) name
  rw [lines, Source.chunks_append himports, Source.chunks_append hscope, chunks_classes]

end File

/-- **Reading undoes writing.** In every layout, a file says what it was made from. -/
theorem ofText_render (f : File) (layout : Nat → Text.Blanks) : FileOutline.ofText (f.render layout) = f.outline := by
  have hclasses : (f.classes.map Class.lines).filterMap Outline.ofLines? = f.classes.map Class.outline := by
    simp only [List.filterMap_map, Function.comp_def, Class.ofLines?_lines, List.filterMap_eq_map']
  rw [FileOutline.ofText, File.render, Source.canonicalLines_laidOut f.isStatement, f.scopeOf_lines, f.importsOf_lines,
    f.chunks_lines, hclasses]
  rfl

end ClassAtlas.Written
