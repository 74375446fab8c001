/-
The Markdown layout without external classes.

The layout leaves external dependencies out while it writes, but counts the edges and looks for the cycles of everything.
If the entries have lost these dependencies beforehand, the listing is the same (`listing_withoutExternal`), and so are
the cycles, because no external class has an entry (`Graph.cycles_keepDependencies`). What differs is the number of edges
in the summary, and nothing else does (`toMarkdown_hidden`).
-/
import ClassAtlas.Proofs.Graph.Mutual
import ClassAtlas.Proofs.Report.Sections

namespace ClassAtlas.Report

def isInternal (c : ClassId) : Bool := c.project ≠ Resolution.externalProject

/-- the report without the dependencies on external classes -/
def withoutExternal (r : Report) : Report := { r with entries := Graph.keepDependencies isInternal r.entries }

/-! ## The entries -/

theorem entryText_keep (e : ClassEntry) :
    entryText true { e with dependencies := e.dependencies.filter isInternal } = entryText false e := by
  have hkept : ((e.dependencies.filter isInternal).filter
      fun d => (true : Bool) ∨ d.project ≠ Resolution.externalProject) =
      e.dependencies.filter fun d => (false : Bool) ∨ d.project ≠ Resolution.externalProject := by
    simp [isInternal]
  unfold entryText
  rw [hkept]

/-- the order looks at nothing but the projects -/
theorem byProject_withoutExternal (r : Report) :
    r.withoutExternal.byProject = Graph.keepDependencies isInternal r.byProject := by
  symm
  apply List.map_mergeSort
  intro a _ b _
  rfl

theorem listing_withoutExternal (r : Report) : r.withoutExternal.listing true = r.listing false := by
  rw [listing, byProject_withoutExternal, Graph.keepDependencies, withHeadings_map]
  simp only [entryText_keep]
  rfl

/-! ## The rest of the text -/

/-- the text up to the number of edges -/
def beforeEdges (r : Report) : Text :=
  ("# CLASS_DEPENDENCIES" : Text) ++ ['\n'] ++ ("FILES:" : Text) ++ Text.ofNat r.fileCount ++ (" CLASSES:" : Text) ++
    Text.ofNat r.entries.length ++ (" EDGES:" : Text)

/-- the text after the number of edges and the word that follows it -/
def afterEdges (showExternal : Bool) (r : Report) : Text :=
  Text.ofNat r.failures.length ++ ['\n', '\n'] ++ r.listing showExternal ++ r.closing

theorem toMarkdown_split (showExternal : Bool) (r : Report) :
    r.toMarkdown showExternal =
      r.beforeEdges ++ Text.ofNat (Graph.ofEntries r.entries).edgeCount ++ (" FAILURES:" : Text) ++
        r.afterEdges showExternal := by
  rw [toMarkdown_eq]
  unfold opening summary beforeEdges afterEdges
  generalize ("# CLASS_DEPENDENCIES" : Text) = title
  generalize ("FILES:" : Text) = files
  generalize (" CLASSES:" : Text) = classes
  generalize (" EDGES:" : Text) = edges
  generalize (" FAILURES:" : Text) = failures
  simp [Text.unlines]

theorem beforeEdges_withoutExternal (r : Report) : r.withoutExternal.beforeEdges = r.beforeEdges := by
  unfold beforeEdges withoutExternal Graph.keepDependencies
  rw [List.length_map]

theorem cycles_withoutExternal {r : Report} (h : ∀ e ∈ r.entries, e.id.project ≠ Resolution.externalProject) :
    (Graph.ofEntries r.withoutExternal.entries).cycles = (Graph.ofEntries r.entries).cycles := by
  apply Graph.cycles_keepDependencies
  intro e he
  exact decide_eq_true (h e he)

theorem afterEdges_withoutExternal {r : Report} (h : ∀ e ∈ r.entries, e.id.project ≠ Resolution.externalProject) :
    r.withoutExternal.afterEdges true = r.afterEdges false := by
  unfold afterEdges closing
  rw [listing_withoutExternal, cycles_withoutExternal h]
  rfl

/-- **Hiding external dependencies only hides dependencies.** The text is that of the report without them, up to the
number of edges, and the cycles are the same. -/
theorem toMarkdown_hidden (r : Report) (h : ∀ e ∈ r.entries, e.id.project ≠ Resolution.externalProject) :
    (∃ rest : Text,
      r.toMarkdown false =
        r.beforeEdges ++ Text.ofNat (Graph.ofEntries r.entries).edgeCount ++ (" FAILURES:" : Text) ++ rest ∧
      r.withoutExternal.toMarkdown true =
        r.beforeEdges ++ Text.ofNat (Graph.ofEntries r.withoutExternal.entries).edgeCount ++ (" FAILURES:" : Text) ++
          rest) ∧
    (Graph.ofEntries r.withoutExternal.entries).cycles = (Graph.ofEntries r.entries).cycles := by
  refine ⟨⟨r.afterEdges false, toMarkdown_split false r, ?_⟩, cycles_withoutExternal h⟩
  rw [toMarkdown_split, beforeEdges_withoutExternal, afterEdges_withoutExternal h]

/-- two classes that depend on each other, one of them on an external class as well -/
def withWidget : Report where
  entries := [
    ⟨⟨"Foo", "App", "web"⟩, ⟨"web/Foo.cs"⟩, [⟨"Bar", "App", "core"⟩, ⟨"Widget", "unknown", "external"⟩]⟩,
    ⟨⟨"Bar", "App", "core"⟩, ⟨"core/Bar.cs"⟩, [⟨"Foo", "App", "web"⟩]⟩]
  failures := []
  collisions := []
  fileCount := 2

/-- no entry is external, though one has an external dependency: hiding it takes one of the three edges, and the rest of
the text stays -/
theorem toMarkdown_hidden_withWidget :
    Graph.DependsOn withWidget.entries ⟨"Foo", "App", "web"⟩ ⟨"Widget", "unknown", Resolution.externalProject⟩ ∧
    (∀ e ∈ withWidget.entries, e.id.project ≠ Resolution.externalProject) ∧
    (∃ rest : Text,
      withWidget.toMarkdown false = withWidget.beforeEdges ++ Text.ofNat 3 ++ (" FAILURES:" : Text) ++ rest ∧
      withWidget.withoutExternal.toMarkdown true =
        withWidget.beforeEdges ++ Text.ofNat 2 ++ (" FAILURES:" : Text) ++ rest) ∧
    (Graph.ofEntries withWidget.withoutExternal.entries).cycles = (Graph.ofEntries withWidget.entries).cycles := by
  have hinternal : ∀ e ∈ withWidget.entries, e.id.project ≠ Resolution.externalProject := by decide
  have hedges : (Graph.ofEntries withWidget.entries).edgeCount = 3 := by
    rw [Graph.edgeCount_ofEntries]
    decide
  have hkept : (Graph.ofEntries withWidget.withoutExternal.entries).edgeCount = 2 := by
    rw [Graph.edgeCount_ofEntries]
    decide
  have hhidden := toMarkdown_hidden withWidget hinternal
  rw [hedges, hkept] at hhidden
  exact ⟨by decide, hinternal, hhidden⟩

end ClassAtlas.Report
