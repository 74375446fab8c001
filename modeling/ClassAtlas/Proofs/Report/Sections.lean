/-
The sections of the Markdown layout.

The entries are grouped by project. Read one after the other, the groups are the entries in the order of their projects,
those of one project as the report has them (`flatMap_groupBy`), and what stands before each group is a heading before
the first entry of a project (`withHeadings_groups`). So the layout lists every entry once, with one heading for each
project (`toMarkdown_sections`). The order is that of the bytes of the names, which is the order of their code points.
-/
import ClassAtlas.Proofs.ByteOrder
import ClassAtlas.Proofs.Lines
import ClassAtlas.Proofs.StableSort
import ClassAtlas.Report.Markdown

namespace ClassAtlas

/-! ## Headings -/

section Headings

variable {α β : Type} {key : α → Text} {heading : Text → List β} {item : α → List β} {earlier : List Text} {k : Text}

/-- items one after the other, with a heading before an item whose key has not occurred earlier -/
def withHeadings (key : α → Text) (heading : Text → List β) (item : α → List β) (earlier : List Text) : List α → List β
  | [] => []
  | a :: l =>
    (if key a ∈ earlier then [] else heading (key a)) ++ item a ++
      withHeadings key heading item (key a :: earlier) l

/-- it only matters which keys have occurred -/
theorem withHeadings_congr {earlier' : List Text} (h : ∀ k, k ∈ earlier ↔ k ∈ earlier') (l : List α) :
    withHeadings key heading item earlier l = withHeadings key heading item earlier' l := by
  induction l generalizing earlier earlier' with
  | nil => rfl
  | cons a l ih =>
    have hnext : ∀ k, k ∈ key a :: earlier ↔ k ∈ key a :: earlier' := by
      intro k
      rw [List.mem_cons, List.mem_cons, h]
    simp only [withHeadings, h, ih hnext]

/-- items of a key that has occurred have no heading -/
theorem withHeadings_append_of_mem (hk : k ∈ earlier) {items : List α} (h : ∀ a ∈ items, key a = k) (rest : List α) :
    withHeadings key heading item earlier (items ++ rest) =
      items.flatMap item ++ withHeadings key heading item earlier rest := by
  induction items with
  | nil => rfl
  | cons a items ih =>
    obtain ⟨ha, hitems⟩ := List.forall_mem_cons.1 h
    have hsame : ∀ k', k' ∈ key a :: earlier ↔ k' ∈ earlier := by
      intro k'
      rw [List.mem_cons, ha, or_iff_right_of_imp]
      rintro rfl
      exact hk
    have hmem : key a ∈ earlier := ha ▸ hk
    rw [List.cons_append, withHeadings, if_pos hmem, withHeadings_congr hsame, ih hitems, List.flatMap_cons]
    simp

/-- the items of a new key have one heading, before the first of them -/
theorem withHeadings_append_of_not_mem (hk : k ∉ earlier) {items : List α} (hne : items ≠ [])
    (h : ∀ a ∈ items, key a = k) (rest : List α) :
    withHeadings key heading item earlier (items ++ rest) =
      heading k ++ items.flatMap item ++ withHeadings key heading item (k :: earlier) rest := by
  obtain ⟨a, items, rfl⟩ := List.exists_cons_of_ne_nil hne
  obtain ⟨rfl, hitems⟩ := List.forall_mem_cons.1 h
  rw [List.cons_append, withHeadings, if_neg hk, withHeadings_append_of_mem List.mem_cons_self hitems,
    List.flatMap_cons]
  simp

/-- groups with keys that differ have a heading each -/
theorem withHeadings_groups {groups : List (Text × List α)}
    (hgroups : ∀ g ∈ groups, g.2 ≠ [] ∧ ∀ a ∈ g.2, key a = g.1) (hdistinct : (groups.map Prod.fst).Nodup)
    (hnew : ∀ g ∈ groups, g.1 ∉ earlier) :
    withHeadings key heading item earlier (groups.flatMap Prod.snd) =
      groups.flatMap fun g => heading g.1 ++ g.2.flatMap item := by
  induction groups generalizing earlier with
  | nil => rfl
  | cons g groups ih =>
    obtain ⟨⟨hne, hkey⟩, hlater⟩ := List.forall_mem_cons.1 hgroups
    obtain ⟨hfirst, hnewer⟩ := List.forall_mem_cons.1 hnew
    obtain ⟨hg, hdistinct⟩ := List.nodup_cons.1 hdistinct
    have hnext : ∀ g' ∈ groups, g'.1 ∉ g.1 :: earlier := by
      intro g' hg' hmem
      rcases List.mem_cons.1 hmem with he | hmem
      · exact hg (he ▸ List.mem_map_of_mem hg')
      · exact hnewer g' hg' hmem
    rw [List.flatMap_cons, withHeadings_append_of_not_mem hfirst hne hkey, ih hlater hdistinct hnext, List.flatMap_cons]

theorem withHeadings_map {γ : Type} (f : γ → α) (l : List γ) :
    withHeadings key heading item earlier (l.map f) =
      withHeadings (fun a => key (f a)) heading (fun a => item (f a)) earlier l := by
  induction l generalizing earlier with
  | nil => rfl
  | cons a l ih => simp only [List.map_cons, withHeadings, ih]

theorem withHeadings_mergeSort (l : List α) :
    withHeadings key heading item [] (l.mergeSort fun a b => textLe (key a) (key b)) =
      (groupBy key l).flatMap fun g => heading g.1 ++ g.2.flatMap item := by
  rw [← flatMap_groupBy]
  apply withHeadings_groups
  · intro g hg
    rw [groupBy_eq] at hg
    obtain ⟨k, hk, rfl⟩ := List.mem_map.1 hg
    obtain ⟨a, ha, hak⟩ := mem_groupKeys.1 hk
    exact ⟨List.ne_nil_of_mem (List.mem_filter.2 ⟨ha, by simpa using hak⟩), fun b hb => key_of_mem_filter hb⟩
  · rw [groupBy_eq, List.map_map]
    simpa [Function.comp_def] using nodup_groupKeys key l
  · intro g _
    exact List.not_mem_nil

end Headings

namespace Report

/-! ## The parts of the text -/

/-- what stands before the entries: the title and the summary -/
def opening (r : Report) : Text :=
  Text.unlines [("# CLASS_DEPENDENCIES" : Text), summary r (Graph.ofEntries r.entries).edgeCount, []]

/-- what stands after them: the cycles, the failures and the collisions -/
def closing (r : Report) : Text :=
  Text.unlines (spacedSection "CYCLES" ((Graph.ofEntries r.entries).cycles.map cycleItem) ++
    spacedSection "FAILURES" (r.failures.map failureItem) ++ sectionLines "COLLISIONS" (r.collisions.map collisionItem))

def projectHeading (project : Text) : Text := ("## " : Text) ++ project ++ ['\n', '\n']

def dependencyText (d : ClassId) : Text := ['-', ' '] ++ d.qualifiedName ++ [' ', '['] ++ d.project ++ [']', '\n']

/-- the dependencies that are kept, or the word `(none)` -/
def dependenciesText (kept : List ClassId) : Text :=
  if kept = [] then ("- (none)" : Text) ++ ['\n'] else kept.flatMap dependencyText

/-- an entry with its name, its file and the dependencies that are kept -/
def entryText (showExternal : Bool) (e : ClassEntry) : Text :=
  ("### " : Text) ++ e.id.qualifiedName ++ ['\n', '`'] ++ e.file.text ++ ['`', '\n', '\n'] ++
    dependenciesText (e.dependencies.filter fun d => showExternal ∨ d.project ≠ Resolution.externalProject) ++ ['\n']

/-- the entries in the order of the bytes of their projects' names, those of one project as the report has them -/
def byProject (r : Report) : List ClassEntry :=
  r.entries.mergeSort fun a b => !decide (Text.encodeUtf8 b.id.project < Text.encodeUtf8 a.id.project)

theorem byProject_eq (r : Report) : r.byProject = r.entries.mergeSort fun a b => textLe a.id.project b.id.project := by
  simp only [byProject, Text.encodeUtf8_lt_iff, textLe]

theorem unlines_flatMap {α : Type} (l : List α) (f : α → List Text) :
    Text.unlines (l.flatMap f) = l.flatMap fun a => Text.unlines (f a) := List.flatMap_assoc

theorem unlines_map_dependencyLine (ds : List ClassId) :
    Text.unlines (ds.map dependencyLine) = ds.flatMap dependencyText := by
  rw [Text.unlines, List.flatMap_map]
  apply List.flatMap_congr
  intro d _
  simp [dependencyText, dependencyLine, bullet]

theorem unlines_dependencyLines (kept : List ClassId) : Text.unlines (dependencyLines kept) = dependenciesText kept := by
  cases kept with
  | nil => rfl
  | cons d kept =>
    rw [dependenciesText, if_neg (List.cons_ne_nil d kept), ← unlines_map_dependencyLine]
    rfl

theorem shown_eq (showExternal : Bool) (dependencies : List ClassId) : shown showExternal dependencies =
    dependencies.filter fun d => showExternal ∨ d.project ≠ Resolution.externalProject := by
  apply List.filter_congr
  intro d _
  by_cases hd : d.project = Resolution.externalProject
  · simp [hd]
  · simp [hd]

theorem unlines_entryLines (showExternal : Bool) (e : ClassEntry) :
    Text.unlines (entryLines showExternal e) = entryText showExternal e := by
  unfold entryLines entryText
  rw [Text.unlines_append, Text.unlines_append, unlines_dependencyLines, shown_eq]
  generalize ("### " : Text) = mark
  simp [Text.unlines, codeSpan]

theorem unlines_projectLines (showExternal : Bool) (project : Text) (es : List ClassEntry) :
    Text.unlines (projectLines showExternal project es) =
      projectHeading project ++ es.flatMap (entryText showExternal) := by
  unfold projectLines projectHeading
  rw [Text.unlines_append, unlines_flatMap]
  simp only [unlines_entryLines]
  generalize ("## " : Text) = mark
  simp [Text.unlines]

/-- the entries as the layout lists them -/
def listing (showExternal : Bool) (r : Report) : Text :=
  withHeadings (fun e => e.id.project) projectHeading (entryText showExternal) [] r.byProject

theorem toMarkdown_eq (showExternal : Bool) (r : Report) :
    r.toMarkdown showExternal = r.opening ++ r.listing showExternal ++ r.closing := by
  rw [listing, byProject_eq, withHeadings_mergeSort, toMarkdown, markdownLines]
  simp only [Text.unlines_append, unlines_flatMap, unlines_projectLines, opening, closing, List.append_assoc]

/-- **The layout lists every entry once, project by project.** Between the summary and the cycles, failures and
collisions stand the entries, sorted stably by the bytes of their projects' names, with one heading before the first
entry of each project. -/
theorem toMarkdown_sections (showExternal : Bool) (r : Report) :
    IsStableSort (fun e => Text.encodeUtf8 e.id.project) r.entries r.byProject ∧
    r.toMarkdown showExternal =
      r.opening ++ withHeadings (fun e => e.id.project) projectHeading (entryText showExternal) [] r.byProject ++
        r.closing := by
  constructor
  · apply isStableSort_mergeSort
    intro a b
    simp
  · exact toMarkdown_eq showExternal r

end Report

end ClassAtlas
