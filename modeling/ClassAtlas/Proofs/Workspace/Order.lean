/-
The order in which projects are found.

The projects come in the order of the bytes of their names, each name once, and none of them is without files. The
files of a project come in the order of the components of their paths (`InOrder`). Sorting the entries of each directory
by their names is enough for this: it is the order of components, and not that of the texts of the paths, in which
`sub/A.cs` would come behind `sub.cs`. Grouping takes some of the files and leaves them in their order, so that files
from several homes of one name are in order too.
-/
import ClassAtlas.Proofs.ByteOrder
import ClassAtlas.Proofs.Workspace.Projects

namespace ClassAtlas.Discovery

structure InOrder (projects : List Project) : Prop where
  names : projects.Pairwise fun p q => Text.encodeUtf8 p.name < Text.encodeUtf8 q.name
  nonempty : ∀ p ∈ projects, p.files ≠ []
  files : ∀ p ∈ projects, p.files.Pairwise fun a b => a.components < b.components

/-- the projects, by the names under which files are grouped -/
theorem group_eq_map (fallback : Text) (files : List Path) :
    group fallback files =
      (groupKeys (projectOf (projectHomes files) fallback) (files.filter (hasSuffix sourceSuffix))).map fun name =>
        ⟨name, (files.filter (hasSuffix sourceSuffix)).filter fun f =>
          projectOf (projectHomes files) fallback f = name⟩ := by
  rw [group, groupBy_eq, List.map_map]
  rfl

/-- files that come in order are grouped in order -/
theorem inOrder_group (fallback : Text) {files : List Path}
    (h : files.Pairwise fun a b => a.components < b.components) : InOrder (group fallback files) := by
  rw [group_eq_map]
  refine ⟨?_, ?_, ?_⟩
  · rw [List.pairwise_map]
    apply (pairwise_groupKeys _ _).imp
    intro name name' hlt
    exact Text.encodeUtf8_lt_of_lt hlt
  · intro p hp hnone
    obtain ⟨name, hname, rfl⟩ := List.mem_map.1 hp
    obtain ⟨f, hf, hproject⟩ := mem_groupKeys.1 hname
    exact List.filter_eq_nil_iff.1 hnone f hf (decide_eq_true hproject)
  · intro p hp
    obtain ⟨name, -, rfl⟩ := List.mem_map.1 hp
    exact (h.filter _).filter _

/-- **Projects and their files are found in order**, and no source file that can be reached is left out. -/
theorem projects_inOrder {w : Workspace} (hw : w.root.WellFormed) {root : Path} {place : Place}
    {entries : List (Text × Tree)} (hroot : w.resolve root = .ok place)
    (hdirectory : w.node? place = some (.directory entries)) :
    ∃ ps, projects w root = .ok ps ∧ InOrder ps ∧ ∀ f, f ∈ ps.flatMap Project.files ↔
      ∃ above name stem, Reached root (.directory entries) above name ∧ IsNamed "cs" stem name ∧
        f = root.descend (above ++ [name]) := by
  have h : (Tree.directory entries).WellFormed := (hw.of_node? hdirectory).1
  refine ⟨group (nameOfRoot root place) (filesBelow root (.directory entries)), ?_, ?_, ?_⟩
  · simp [projects, hroot, hdirectory]
  · exact inOrder_group _ (pairwise_filesBelow h root)
  · intro f
    rw [files_group, mem_flatMap_groupBy]
    exact mem_filter_hasSuffix h (by decide)

/-- two homes of one name around a third project, and a directory whose name starts that of a file -/
def mergedProjects : Workspace :=
  let files : List Text := ["two/Lib.csproj", "two/A.cs", "two/sub.cs", "two/sub/Z.cs", "one/Lib.csproj", "one/B.cs",
    "App/App.csproj", "App/Main.cs", "loose.cs"]
  files.foldl (fun w file => w.addFile ⟨file⟩ []) (Workspace.empty ["work"])

theorem wellFormed_mergedProjects : mergedProjects.WellFormed := by
  refine List.foldlRecOn (motive := Workspace.WellFormed) _ _ ?_ fun w hw file _ => Workspace.wellFormed_addFile hw _ _
  apply Workspace.wellFormed_empty
  intro name hname
  obtain rfl := List.mem_singleton.1 hname
  exact ⟨by decide, by decide, by decide, by decide⟩

theorem projects_inOrder_merged :
    mergedProjects.resolve ⟨"."⟩ = .ok ["work"] ∧
      ∃ entries ps, mergedProjects.node? ["work"] = some (.directory entries) ∧
        projects mergedProjects ⟨"."⟩ = .ok ps ∧ InOrder ps ∧ ∀ f, f ∈ ps.flatMap Project.files ↔
          ∃ above name stem, Reached ⟨"."⟩ (.directory entries) above name ∧ IsNamed "cs" stem name ∧
            f = Path.descend ⟨"."⟩ (above ++ [name]) := by
  have hroot : mergedProjects.resolve ⟨"."⟩ = .ok ["work"] := rfl
  have hdirectory : ∃ entries, mergedProjects.node? ["work"] = some (.directory entries) := ⟨_, rfl⟩
  obtain ⟨entries, hentries⟩ := hdirectory
  obtain ⟨ps, hps, horder, hfiles⟩ := projects_inOrder wellFormed_mergedProjects.root hroot hentries
  exact ⟨hroot, entries, ps, hentries, hps, horder, hfiles⟩

end ClassAtlas.Discovery
