/-
Which project a source file belongs to.

The projects below a directory share out the source files that the walk reaches: every one of them is in one project,
and only there. It is the project of the nearest directory above the file that holds a project file, as far up as the
directory that was asked for, and this project has the name of the first of these files (`IsHome`, `BelongsTo`). Where
no such directory has one, the project is named after the directory that was asked for.

The homes of projects are kept by the components of their paths. All of them are at or below the directory that was
asked for, so the directories above it, which are looked at too, add nothing.
-/
import Mathlib.Data.List.Induction
import ClassAtlas.Proofs.StableSort
import ClassAtlas.Proofs.Workspace.Walk

namespace ClassAtlas.Discovery

open ClassAtlas.Path (Component)

/-- a file name with this suffix, in letters of either case, after a stem -/
def IsNamed (suffix stem name : Text) : Prop :=
  stem ≠ [] ∧ ∃ ending, name = stem ++ '.' :: ending ∧ Text.sameIgnoringCase ending suffix = true

/-- the directory at `q` holds a project file of this name -/
def HoldsProject (t : Tree) (q : Place) (name stem : Text) : Prop := HoldsFile t q name ∧ IsNamed "csproj" stem name

/-- the directory at `q` is the home of a project, which has the name of the first project file in it -/
def IsHome (t : Tree) (q : Place) (project : Text) : Prop :=
  ∃ name, HoldsProject t q name project ∧ ∀ other stem, HoldsProject t q other stem → ¬ other < name

/-- files in the directory at `above` belong to the project of the nearest home, or else to the last resort -/
def BelongsTo (t : Tree) (fallback : Text) (above : Place) (project : Text) : Prop :=
  (∃ q, q <+: above ∧ IsHome t q project ∧
    ∀ r, r <+: above → q.length < r.length → ∀ name stem, ¬ HoldsProject t r name stem) ∨
  project = fallback ∧ ∀ q, q <+: above → ∀ name stem, ¬ HoldsProject t q name stem

/-- the projects share out the source files below a directory, which is the node `t` and has the path `root` -/
structure SharesOut (root : Path) (t : Tree) (fallback : Text) (projects : List Project) : Prop where
  once : (projects.flatMap Project.files).Nodup
  listed : ∀ f, f ∈ projects.flatMap Project.files ↔
    ∃ above name stem, Reached root t above name ∧ IsNamed "cs" stem name ∧ f = root.descend (above ++ [name])
  nearest : ∀ p ∈ projects, ∀ above name, Reached root t above name → root.descend (above ++ [name]) ∈ p.files →
    BelongsTo t fallback above p.name

/-- where all directories can be opened, the source files that are shared out are all those below the root that no
skipped directory hides -/
theorem SharesOut.mem_files_iff {root : Path} {t : Tree} {fallback : Text} {projects : List Project}
    (h : SharesOut root t fallback projects) (hopen : IsOpenable root t) {f : Path} :
    f ∈ projects.flatMap Project.files ↔ ∃ above name stem, HoldsFile t above name ∧
      (∀ directory ∈ above, ¬ IsSkipped directory) ∧ IsNamed "cs" stem name ∧ f = root.descend (above ++ [name]) := by
  rw [h.listed]
  simp only [reached_iff_of_isOpenable hopen, and_assoc]

/-! ## Suffixes -/

section Suffix

variable {suffix stem name : Text} (hsuffix : '.' ∉ suffix.map Char.toLower)

include hsuffix

theorem not_mem_of_sameIgnoringCase {ending : Text} (h : Text.sameIgnoringCase ending suffix = true) :
    '.' ∉ ending := by
  intro hdot
  have hlower : '.'.toLower ∈ ending.map Char.toLower := List.mem_map_of_mem hdot
  rw [beq_iff_eq.1 h] at hlower
  exact hsuffix hlower

theorem splitLast?_of_isNamed (h : IsNamed suffix stem name) :
    ∃ ending, Text.splitLast? '.' name = some (stem, ending) ∧ Text.sameIgnoringCase ending suffix = true := by
  obtain ⟨-, ending, rfl, hsame⟩ := h
  exact ⟨ending, Text.splitLast?_append_cons (not_mem_of_sameIgnoringCase hsuffix hsame), hsame⟩

theorem fileBase_of_isNamed (h : IsNamed suffix stem name) : fileBase name = stem := by
  obtain ⟨ending, hsplit, -⟩ := splitLast?_of_isNamed hsuffix h
  simp [fileBase, hsplit, h.1]

theorem exists_isNamed_iff :
    (∃ stem, IsNamed suffix stem name) ↔ (fileSuffix? name).any (fun s => Text.sameIgnoringCase s suffix) = true := by
  constructor
  · rintro ⟨stem, h⟩
    obtain ⟨ending, hsplit, hsame⟩ := splitLast?_of_isNamed hsuffix h
    simp [fileSuffix?, hsplit, h.1, hsame]
  · intro h
    obtain ⟨ending, hending, hsame⟩ := (Option.any_eq_true _ _).1 h
    unfold fileSuffix? at hending
    split at hending
    · rename_i stem ending' hsplit
      split_ifs at hending with hstem
      obtain rfl := Option.some.inj hending
      exact ⟨stem, by simpa using hstem, ending', Text.splitLast?_eq_some hsplit, hsame⟩
    · cases hending

end Suffix

/-! ## Files of one suffix -/

section Below

variable {root : Path} {entries : List (Text × Tree)} (h : (Tree.directory entries).WellFormed)

include h

theorem HoldsFile.components {above : Place} {name : Text} (hf : HoldsFile (.directory entries) above name) :
    (root.descend (above ++ [name])).components = (root.components ++ above.map .name) ++ [.name name] := by
  obtain ⟨content, hfile⟩ := hf
  rw [Path.components_descend root (h.of_node? hfile).2]
  simp

theorem hasSuffix_descend {suffix : Text} (hsuffix : '.' ∉ suffix.map Char.toLower) {above : Place} {name : Text}
    (hr : Reached root (.directory entries) above name) :
    hasSuffix suffix (root.descend (above ++ [name])) = true ↔ ∃ stem, IsNamed suffix stem name := by
  rw [exists_isNamed_iff hsuffix]
  simp [hasSuffix, Path.fileName?, hr.isFile.components h]

theorem mem_filter_hasSuffix {suffix : Text} (hsuffix : '.' ∉ suffix.map Char.toLower) {f : Path} :
    f ∈ (filesBelow root (.directory entries)).filter (hasSuffix suffix) ↔
      ∃ above name stem, Reached root (.directory entries) above name ∧ IsNamed suffix stem name ∧
        f = root.descend (above ++ [name]) := by
  rw [List.mem_filter, mem_filesBelow h]
  constructor
  · rintro ⟨⟨above, name, hr, rfl⟩, hf⟩
    obtain ⟨stem, hstem⟩ := (hasSuffix_descend h hsuffix hr).1 hf
    exact ⟨above, name, stem, hr, hstem, rfl⟩
  · rintro ⟨above, name, stem, hr, hstem, rfl⟩
    exact ⟨⟨above, name, hr, rfl⟩, (hasSuffix_descend h hsuffix hr).2 ⟨stem, hstem⟩⟩

end Below

/-! ## Homes -/

theorem getElem?_foldl_insertIfNew {α κ β : Type} [BEq κ] [Hashable κ] [LawfulBEq κ] (key : α → κ) (value : α → β)
    (l : List α) (m : Std.HashMap κ β) (k : κ) :
    (l.foldl (fun m a => m.insertIfNew (key a) (value a)) m)[k]? =
      m[k]?.or ((l.find? fun a => key a == k).map value) := by
  induction l generalizing m with
  | nil => simp
  | cons a l ih =>
    rw [List.foldl_cons, ih, Std.HashMap.getElem?_insertIfNew, List.find?_cons]
    by_cases hk : key a = k
    · subst hk
      by_cases hm : key a ∈ m
      · rw [Std.HashMap.getElem?_eq_some_getElem hm]
        simp [hm]
      · rw [Std.HashMap.getElem?_eq_none hm]
        simp [hm]
    · have hne : (key a == k) = false := beq_eq_false_iff_ne.2 hk
      simp [hne]

theorem getElem?_projectHomes (files : List Path) (directory : List Component) :
    (projectHomes files)[directory]? =
      ((files.filter (hasSuffix projectSuffix)).find? fun f => f.components.dropLast == directory).map
        fun f => fileBase (f.fileName?.getD []) := by
  rw [projectHomes, getElem?_foldl_insertIfNew]
  simp

theorem find?_first {α : Type} {r : α → α → Prop} {p : α → Bool} {l : List α} (hl : l.Pairwise r) {a b : α}
    (ha : l.find? p = some a) (hb : b ∈ l) (hp : p b = true) : b = a ∨ r a b := by
  obtain ⟨-, before, after, rfl, hbefore⟩ := List.find?_eq_some_iff_append.1 ha
  rcases List.mem_append.1 hb with hb | hb
  · simpa [hp] using hbefore b hb
  · rcases List.mem_cons.1 hb with rfl | hb
    · exact Or.inl rfl
    · exact Or.inr (List.rel_of_pairwise_cons (List.pairwise_append.1 hl).2.1 hb)

section Homes

variable {root : Path} {entries : List (Text × Tree)} (h : (Tree.directory entries).WellFormed)

include h

theorem length_le_of_mem_projectHomes {directory : List Component} {project : Text}
    (hproject : (projectHomes (filesBelow root (.directory entries)))[directory]? = some project) :
    root.components.length ≤ directory.length := by
  rw [getElem?_projectHomes] at hproject
  obtain ⟨f, hfind, -⟩ := Option.map_eq_some_iff.1 hproject
  obtain ⟨above, name, stem, hr, -, rfl⟩ := (mem_filter_hasSuffix h (by decide)).1 (List.mem_of_find?_eq_some hfind)
  have hkey := List.find?_some hfind
  rw [hr.isFile.components h, List.dropLast_concat, beq_iff_eq] at hkey
  simp [← hkey]

variable {q : Place} (hq : ∀ name, HoldsFile (.directory entries) q name → Reached root (.directory entries) q name)

include hq

/-- the project files that the walk finds in a directory are those that it holds -/
theorem mem_projectFiles_iff {f : Path} :
    (f ∈ (filesBelow root (.directory entries)).filter (hasSuffix projectSuffix) ∧
        f.components.dropLast = root.components ++ q.map .name) ↔
      ∃ name stem, HoldsProject (.directory entries) q name stem ∧ f = root.descend (q ++ [name]) := by
  rw [mem_filter_hasSuffix h (by decide)]
  constructor
  · rintro ⟨⟨above, name, stem, hr, hnamed, rfl⟩, hkey⟩
    rw [hr.isFile.components h, List.dropLast_concat, List.append_cancel_left_eq] at hkey
    obtain rfl := (List.map_inj_right fun _ _ => Component.name.inj).1 hkey
    exact ⟨name, stem, ⟨hr.isFile, hnamed⟩, rfl⟩
  · rintro ⟨name, stem, ⟨hfile, hnamed⟩, rfl⟩
    exact ⟨⟨q, name, stem, hq name hfile, hnamed, rfl⟩, by rw [hfile.components h, List.dropLast_concat]⟩

theorem isHome_of_mem_projectHomes {project : Text}
    (hproject : (projectHomes (filesBelow root (.directory entries)))[root.components ++ q.map .name]? = some project) :
    IsHome (.directory entries) q project := by
  rw [getElem?_projectHomes] at hproject
  obtain ⟨f, hfind, hname⟩ := Option.map_eq_some_iff.1 hproject
  have hfound := List.find?_some hfind
  obtain ⟨name, stem, hholds, rfl⟩ :=
    (mem_projectFiles_iff h hq).1 ⟨List.mem_of_find?_eq_some hfind, beq_iff_eq.1 hfound⟩
  have hstem : fileBase name = stem := fileBase_of_isNamed (by decide) hholds.2
  simp only [Path.fileName?, hholds.1.components h, List.getLast?_concat, Option.getD_some, hstem] at hname
  subst hname
  refine ⟨name, hholds, fun other stem' hother hlt => ?_⟩
  -- the walk finds the other file too, and not before the first one
  obtain ⟨hmem, hkey⟩ := (mem_projectFiles_iff h hq).2 ⟨other, stem', hother, rfl⟩
  have hpairwise := (pairwise_filesBelow h root).filter (hasSuffix projectSuffix)
  have hbefore : (root.descend (q ++ [other])).components < (root.descend (q ++ [name])).components := by
    rw [hother.1.components h, hholds.1.components h]
    exact Path.append_name_lt hlt _ _ _
  rcases find?_first hpairwise hfind hmem (beq_iff_eq.2 hkey) with heq | hafter
  · rw [heq] at hbefore
    exact List.lt_asymm hbefore hbefore
  · exact List.lt_asymm hbefore hafter

theorem not_holdsProject_of_not_mem_projectHomes
    (hnone : (projectHomes (filesBelow root (.directory entries)))[root.components ++ q.map .name]? = none)
    (name stem : Text) : ¬ HoldsProject (.directory entries) q name stem := by
  intro hholds
  rw [getElem?_projectHomes, Option.map_eq_none_iff, List.find?_eq_none] at hnone
  obtain ⟨hmem, hkey⟩ := (mem_projectFiles_iff h hq).2 ⟨name, stem, hholds, rfl⟩
  exact hnone _ hmem (beq_iff_eq.2 hkey)

end Homes

/-! ## The nearest home -/

section Nearest

variable {root : Path} {entries : List (Text × Tree)} (h : (Tree.directory entries).WellFormed) {above : Place}
  {name : Text} (hr : Reached root (.directory entries) above name)

include h hr

/-- the directories above a file that can be the home of a project are those from the root on -/
theorem directoriesAbove_descend {directory : List Component} (hroot : root.components.length ≤ directory.length) :
    directory ∈ (root.descend (above ++ [name])).directoriesAbove ↔
      ∃ q, q <+: above ∧ directory = root.components ++ q.map .name := by
  rw [Path.mem_directoriesAbove, hr.isFile.components h]
  constructor
  · rintro ⟨hbelow, hlength⟩
    have habove : directory <+: root.components ++ above.map .name :=
      List.prefix_of_prefix_length_le hbelow (List.prefix_append _ _) (by simp at hlength ⊢; omega)
    obtain ⟨names, rfl⟩ := List.prefix_of_prefix_length_le (List.prefix_append root.components _) habove hroot
    obtain ⟨q, hq, rfl⟩ := List.prefix_map_iff.1 ((List.prefix_append_right_inj _).1 habove)
    exact ⟨q, hq, rfl⟩
  · rintro ⟨q, ⟨rest, rfl⟩, rfl⟩
    exact ⟨⟨rest.map .name ++ [.name name], by simp⟩, by simp⟩

theorem belongsTo_projectOf (fallback : Text) :
    BelongsTo (.directory entries) fallback above
      (projectOf (projectHomes (filesBelow root (.directory entries))) fallback (root.descend (above ++ [name]))) := by
  have hreached : ∀ q, q <+: above → ∀ n, HoldsFile (.directory entries) q n →
      Reached root (.directory entries) q n := by
    intro q hq n hfile
    exact ⟨hfile, fun d hd => hr.entered d (hq.subset hd), fun r hrq => hr.opened r (hrq.trans hq)⟩
  have hmem : ∀ q, q <+: above →
      root.components ++ q.map .name ∈ (root.descend (above ++ [name])).directoriesAbove := by
    intro q hq
    exact (directoriesAbove_descend h hr (by simp)).2 ⟨q, hq, rfl⟩
  unfold projectOf
  cases hfind : (root.descend (above ++ [name])).directoriesAbove.findSome? fun directory =>
      (projectHomes (filesBelow root (.directory entries)))[directory]? with
  | none =>
    refine Or.inr ⟨rfl, fun q hq => ?_⟩
    exact not_holdsProject_of_not_mem_projectHomes h (hreached q hq) (List.findSome?_eq_none_iff.1 hfind _ (hmem q hq))
  | some project =>
    obtain ⟨directory, hdirectory, hhome, hnearer⟩ := Path.findSome?_directoriesAbove hfind
    obtain ⟨q, hq, rfl⟩ := (directoriesAbove_descend h hr (length_le_of_mem_projectHomes h hhome)).1 hdirectory
    refine Or.inl ⟨q, hq, isHome_of_mem_projectHomes h (hreached q hq) hhome, fun r hra hlt => ?_⟩
    exact not_holdsProject_of_not_mem_projectHomes h (hreached r hra) (hnearer _ (hmem r hra) (by simpa using hlt))

end Nearest

/-! ## The name of the root -/

theorem getLast?_foldl_enter {segments : List Text} {name : Text} (place : Place)
    (h : (segments.filterMap Path.component?).getLast? = some (.name name)) :
    (segments.foldl Workspace.enter place).getLast? = some name := by
  induction segments using List.reverseRecOn with
  | nil => cases h
  | append_singleton segments segment ih =>
    rw [List.filterMap_append] at h
    rw [List.foldl_append, List.foldl_cons, List.foldl_nil, Workspace.enter]
    by_cases hdot : segment = Path.dot
    · have hstay : Path.component? segment = none := by rw [Path.component?, if_pos hdot]
      rw [List.filterMap_cons_none hstay, List.filterMap_nil, List.append_nil] at h
      rw [if_pos hdot]
      exact ih h
    · by_cases hdotDot : segment = Path.dotDot
      · have hup : Path.component? segment = some .parent := by rw [Path.component?, if_neg hdot, if_pos hdotDot]
        rw [List.filterMap_cons_some hup, List.filterMap_nil, List.getLast?_concat] at h
        cases h
      · have hdown : Path.component? segment = some (.name segment) := by
          rw [Path.component?, if_neg hdot, if_neg hdotDot]
        rw [List.filterMap_cons_some hdown, List.filterMap_nil, List.getLast?_concat] at h
        rw [if_neg hdot, if_neg hdotDot, List.getLast?_concat, Component.name.inj (Option.some.inj h)]

/-- a file name at the end of a path is that of the place it leads to -/
theorem getLast?_of_resolve {w : Workspace} {root : Path} {place : Place} (h : w.resolve root = .ok place) {name : Text}
    (hname : root.fileName? = some name) : place.getLast? = some name := by
  obtain rfl := Workspace.eq_placeOf_of_resolve h
  apply getLast?_foldl_enter
  have hlast : root.components.getLast? = some (.name name) := by
    unfold Path.fileName? at hname
    split at hname
    · rename_i n hn
      rw [hn, Option.some.inj hname]
    · cases hname
  rw [Path.components, List.getLast?_append] at hlast
  cases hsegments : (root.segments.filterMap Path.component?).getLast? with
  | some component => simpa [hsegments] using hlast
  | none =>
    -- what a path starts with is not a name
    rw [hsegments] at hlast
    split_ifs at hlast <;> cases hlast

theorem nameOfRoot_of_resolve {w : Workspace} {root : Path} {place : Place} (h : w.resolve root = .ok place) :
    nameOfRoot root place = place.getLast?.getD "root" := by
  cases hlast : place.getLast? with
  | some name => simp [nameOfRoot, hlast]
  | none =>
    have hname : root.fileName? = none := by
      rw [Option.eq_none_iff_forall_ne_some]
      intro name hname
      rw [getLast?_of_resolve h hname] at hlast
      cases hlast
    simp [nameOfRoot, hlast, hname]

/-! ## Sharing out the source files -/

theorem files_group (fallback : Text) (files : List Path) :
    (group fallback files).flatMap Project.files =
      (groupBy (projectOf (projectHomes files) fallback) (files.filter (hasSuffix sourceSuffix))).flatMap Prod.snd := by
  rw [group, List.flatMap_map]

/-- **Every source file is in the project of the nearest home, and nowhere else.** The last resort is the name of the
place that was asked for, however its path is written. -/
theorem projects_nearest {w : Workspace} (hw : w.root.WellFormed) {root : Path} {place : Place}
    {entries : List (Text × Tree)} (hroot : w.resolve root = .ok place)
    (hdirectory : w.node? place = some (.directory entries)) :
    ∃ ps, projects w root = .ok ps ∧ SharesOut root (.directory entries) (place.getLast?.getD "root") ps := by
  have h : (Tree.directory entries).WellFormed := (hw.of_node? hdirectory).1
  refine ⟨group (place.getLast?.getD "root") (filesBelow root (.directory entries)), ?_, ?_, fun f => ?_, ?_⟩
  · simp [projects, hroot, hdirectory, nameOfRoot_of_resolve hroot]
  · rw [files_group]
    exact nodup_flatMap_groupBy ((nodup_filesBelow h root).filter _)
  · rw [files_group, mem_flatMap_groupBy]
    exact mem_filter_hasSuffix h (by decide)
  · intro p hp above name hr hf
    obtain ⟨g, hg, rfl⟩ := List.mem_map.1 hp
    obtain ⟨-, hproject⟩ := mem_of_mem_groupBy hg hf
    rw [← hproject]
    exact belongsTo_projectOf h hr _

/-- two project files in one directory, a project inside another, files that are in no project or not reached, and an
empty directory -/
def nestedProjects : Workspace :=
  let files : List Text := ["repo/Core/Core.csproj", "repo/Core/Base.csproj", "repo/Core/Models/User.CS",
    "repo/Core/Tests/Tests.csproj", "repo/Core/Tests/UserTests.cs", "repo/Core/obj/Generated.cs", "repo/loose.cs"]
  files.foldl (fun w file => w.addFile ⟨file⟩ []) ((Workspace.empty ["home"]).addDirectory ⟨"repo/Docs"⟩)

theorem wellFormed_nestedProjects : nestedProjects.WellFormed := by
  refine List.foldlRecOn (motive := Workspace.WellFormed) _ _ ?_ fun w hw file _ => Workspace.wellFormed_addFile hw _ _
  refine Workspace.wellFormed_addDirectory (Workspace.wellFormed_empty fun name hname => ?_) _
  obtain rfl := List.mem_singleton.1 hname
  exact ⟨by decide, by decide, by decide, by decide⟩

theorem projects_nearest_nested :
    nestedProjects.resolve ⟨"repo/Core/.."⟩ = .ok ["home", "repo"] ∧
      ∃ entries ps, nestedProjects.node? ["home", "repo"] = some (.directory entries) ∧
        projects nestedProjects ⟨"repo/Core/.."⟩ = .ok ps ∧
          SharesOut ⟨"repo/Core/.."⟩ (.directory entries) "repo" ps := by
  have hroot : nestedProjects.resolve ⟨"repo/Core/.."⟩ = .ok ["home", "repo"] := rfl
  have hdirectory : ∃ entries, nestedProjects.node? ["home", "repo"] = some (.directory entries) := ⟨_, rfl⟩
  obtain ⟨entries, hentries⟩ := hdirectory
  obtain ⟨ps, hps, hshares⟩ := projects_nearest wellFormed_nestedProjects.root hroot hentries
  exact ⟨hroot, entries, ps, hentries, hps, hshares⟩

end ClassAtlas.Discovery
