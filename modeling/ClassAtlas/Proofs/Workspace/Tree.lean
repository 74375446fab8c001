/-
Well-formed trees.

In a tree of directories no two entries of a directory have the same name, and every name is one that an entry can have
(`Tree.WellFormed`). A place then leads to one node at most, through names that all can stand in a path. Putting a node
at a place keeps a tree well-formed, so every workspace that is set up is well-formed, whatever paths its files have.
-/
import ClassAtlas.Proofs.Path
import ClassAtlas.Workspace.Basic

namespace ClassAtlas

open ClassAtlas.Path (IsEntryName)

/-- in a table without repeated keys, a key is found with its value -/
theorem find?_fst_eq_some_iff {α β : Type} [BEq α] [LawfulBEq α] {table : List (α × β)}
    (h : (table.map Prod.fst).Nodup) {key : α} {value : β} :
    (table.find? fun e => e.1 == key).map Prod.snd = some value ↔ (key, value) ∈ table := by
  induction table with
  | nil => simp
  | cons e table ih =>
    obtain ⟨k, v⟩ := e
    obtain ⟨hk, hrest⟩ := List.nodup_cons.1 h
    by_cases he : k = key
    · subst he
      have hvalue : (k, value) ∉ table := fun hmem => hk (List.mem_map.2 ⟨_, hmem, rfl⟩)
      simp [hvalue, eq_comm]
    · simp [he, Ne.symm he, ih hrest]

namespace Tree

inductive WellFormed : Tree → Prop
  | file (content : List UInt8) : WellFormed (.file content)
  | directory {entries : List (Text × Tree)} (distinct : (entries.map Prod.fst).Nodup)
      (names : ∀ e ∈ entries, IsEntryName e.1) (below : ∀ e ∈ entries, WellFormed e.2) :
      WellFormed (.directory entries)

theorem wellFormed_nil : (directory []).WellFormed :=
  .directory List.nodup_nil (fun _ he => absurd he List.not_mem_nil) fun _ he => absurd he List.not_mem_nil

/-! ## Looking up -/

theorem entry?_eq_some_iff {entries : List (Text × Tree)} (h : (entries.map Prod.fst).Nodup) {name : Text} {t : Tree} :
    entry? (directory entries) name = some t ↔ (name, t) ∈ entries :=
  find?_fst_eq_some_iff h

theorem node?_cons (t : Tree) (name : Text) (place : Place) :
    t.node? (name :: place) = (t.entry? name).bind fun u => u.node? place := rfl

theorem node?_append (t : Tree) (p q : Place) : t.node? (p ++ q) = (t.node? p).bind fun u => u.node? q :=
  List.foldlM_append

/-- what leads on to a node is a directory -/
theorem exists_directory_of_node? {t u : Tree} {q : Place} {name : Text} {rest : Place}
    (h : t.node? (q ++ name :: rest) = some u) : ∃ entries, t.node? q = some (.directory entries) := by
  rw [node?_append] at h
  obtain ⟨v, hv, hbelow⟩ := Option.bind_eq_some_iff.1 h
  cases v with
  | file content => cases hbelow
  | directory entries => exact ⟨entries, hv⟩

theorem WellFormed.of_entry? {t u : Tree} (h : t.WellFormed) {name : Text} (hu : t.entry? name = some u) :
    u.WellFormed ∧ IsEntryName name := by
  cases h with
  | file content => cases hu
  | directory distinct names below =>
    have hmem := (entry?_eq_some_iff distinct).1 hu
    exact ⟨below _ hmem, names _ hmem⟩

/-- what a place of a well-formed tree leads to is well-formed, and the place is made of names -/
theorem WellFormed.of_node? {t u : Tree} (h : t.WellFormed) {place : Place} (hu : t.node? place = some u) :
    u.WellFormed ∧ ∀ name ∈ place, IsEntryName name := by
  induction place generalizing t with
  | nil =>
    obtain rfl := Option.some.inj hu
    exact ⟨h, fun name hname => absurd hname List.not_mem_nil⟩
  | cons name place ih =>
    obtain ⟨v, hv, hplace⟩ := Option.bind_eq_some_iff.1 hu
    obtain ⟨hwf, hname⟩ := h.of_entry? hv
    obtain ⟨hu', hnames⟩ := ih hwf hplace
    exact ⟨hu', List.forall_mem_cons.2 ⟨hname, hnames⟩⟩

/-! ## Putting -/

section Alter

variable {name : Text} {f : Option Tree → Tree} {entries : List (Text × Tree)}

theorem mem_alterEntry {e : Text × Tree} (h : e ∈ alterEntry name f entries) :
    e ∈ entries ∨ ∃ u : Option Tree, e = (name, f u) ∧ ∀ t ∈ u, (name, t) ∈ entries := by
  induction entries with
  | nil => exact Or.inr ⟨none, List.mem_singleton.1 h, fun t ht => absurd ht (Option.not_mem_none t)⟩
  | cons entry entries ih =>
    obtain ⟨n, t⟩ := entry
    by_cases hn : n = name
    · subst hn
      rw [alterEntry, if_pos rfl] at h
      rcases List.mem_cons.1 h with rfl | h
      · refine Or.inr ⟨some t, rfl, fun u hu => ?_⟩
        obtain rfl := Option.some.inj hu
        exact List.mem_cons_self
      · exact Or.inl (List.mem_cons_of_mem _ h)
    · rw [alterEntry, if_neg hn] at h
      rcases List.mem_cons.1 h with rfl | h
      · exact Or.inl List.mem_cons_self
      · rcases ih h with h | ⟨u, rfl, hu⟩
        · exact Or.inl (List.mem_cons_of_mem _ h)
        · exact Or.inr ⟨u, rfl, fun t ht => List.mem_cons_of_mem _ (hu t ht)⟩

theorem nodup_alterEntry (h : (entries.map Prod.fst).Nodup) : ((alterEntry name f entries).map Prod.fst).Nodup := by
  induction entries with
  | nil => exact List.pairwise_singleton _ name
  | cons entry entries ih =>
    obtain ⟨n, t⟩ := entry
    obtain ⟨hn, hrest⟩ := List.nodup_cons.1 h
    by_cases he : n = name
    · rw [alterEntry, if_pos he]
      exact h
    · rw [alterEntry, if_neg he]
      refine List.nodup_cons.2 ⟨fun hmem => ?_, ih hrest⟩
      obtain ⟨e, hmem', hname⟩ := List.mem_map.1 hmem
      rcases mem_alterEntry hmem' with hmem' | ⟨u, rfl, -⟩
      · exact hn (hname ▸ List.mem_map_of_mem hmem')
      · exact he hname.symm

end Alter

theorem WellFormed.put {node : Tree} (hnode : node.WellFormed) {place : Place}
    (hplace : ∀ name ∈ place, IsEntryName name) {t : Option Tree} (ht : ∀ u ∈ t, u.WellFormed) :
    (put node place t).WellFormed := by
  induction place generalizing t with
  | nil => exact hnode
  | cons name rest ih =>
    obtain ⟨hname, hrest⟩ := List.forall_mem_cons.1 hplace
    -- a directory with this one entry takes the place of nothing, and of a file
    have hnew : (Tree.directory [(name, Tree.put node rest none)]).WellFormed := by
      refine .directory (List.pairwise_singleton _ name) ?_ ?_ <;> intro e he <;> obtain rfl := List.mem_singleton.1 he
      · exact hname
      · exact ih hrest fun u hu => absurd hu (Option.not_mem_none u)
    cases t with
    | none => exact hnew
    | some t =>
      cases ht t rfl with
      | file content => exact hnew
      | directory distinct names below =>
        refine .directory (nodup_alterEntry distinct) ?_ ?_ <;> intro e he <;>
          rcases mem_alterEntry he with he | ⟨u, rfl, hu⟩
        · exact names e he
        · exact hname
        · exact below e he
        · exact ih hrest fun v hv => below _ (hu v hv)

end Tree

/-! ## Workspaces -/

namespace Workspace

theorem eq_enter_of_step {w : Workspace} {place place' : Place} {segment : Text}
    (h : w.step place segment = .ok place') : place' = enter place segment := by
  unfold step at h
  unfold enter
  split at h
  · cases h
  · cases h
  · split_ifs at h ⊢ <;> cases h <;> rfl

theorem eq_foldl_enter_of_follow {w : Workspace} {place place' : Place} {segments : List Text}
    (h : w.follow place segments = .ok place') : place' = segments.foldl enter place := by
  induction segments generalizing place with
  | nil =>
    cases h
    rfl
  | cons segment segments ih =>
    rw [follow, List.foldlM_cons] at h
    cases hstep : w.step place segment with
    | error e =>
      rw [hstep] at h
      cases h
    | ok next =>
      rw [hstep] at h
      rw [List.foldl_cons, ← eq_enter_of_step hstep]
      exact ih h

/-- a path that can be followed leads to the place at which it is set up -/
theorem eq_placeOf_of_resolve {w : Workspace} {path : Path} {place : Place} (h : w.resolve path = .ok place) :
    place = w.placeOf path := by
  unfold resolve at h
  split at h
  · cases h
  · split at h
    · cases h
    · rename_i place' hfollow
      split at h
      · cases h
      · cases h
        exact eq_foldl_enter_of_follow hfollow

structure WellFormed (w : Workspace) : Prop where
  root : w.root.WellFormed
  current : ∀ name ∈ w.current, IsEntryName name

theorem wellFormed_empty {current : Place} (h : ∀ name ∈ current, IsEntryName name) : (empty current).WellFormed where
  root := Tree.wellFormed_nil.put h fun u hu => absurd hu (Option.not_mem_none u)
  current := h

theorem isEntryName_enter {place : Place} (hplace : ∀ name ∈ place, IsEntryName name) {segment : Text}
    (hne : segment ≠ []) (hslash : '/' ∉ segment) : ∀ name ∈ enter place segment, IsEntryName name := by
  intro name hname
  unfold enter at hname
  split_ifs at hname with hdot hdotDot
  · exact hplace name hname
  · exact hplace name ((List.dropLast_sublist place).subset hname)
  · rcases List.mem_append.1 hname with hname | hname
    · exact hplace name hname
    · obtain rfl := List.mem_singleton.1 hname
      exact ⟨hne, hslash, hdot, hdotDot⟩

variable {w : Workspace} (h : w.WellFormed) (path : Path)

include h

/-- a path that is set up leads through names only -/
theorem isEntryName_of_mem_placeOf : ∀ name ∈ w.placeOf path, IsEntryName name := by
  have hstart : ∀ name ∈ w.start path, IsEntryName name := by
    unfold start
    split
    · exact fun name hname => absurd hname List.not_mem_nil
    · exact h.current
  refine List.foldlRecOn (motive := fun place => ∀ name ∈ place, IsEntryName name) path.segments enter hstart
    fun place hplace segment hsegment => ?_
  obtain ⟨hpiece, hne⟩ := List.mem_filter.1 hsegment
  exact isEntryName_enter hplace (by simpa using hne) (Path.not_mem_pieces hpiece)

theorem wellFormed_put {node : Tree} (hnode : node.WellFormed) : (w.put (w.placeOf path) node).WellFormed where
  root := hnode.put (isEntryName_of_mem_placeOf h path) fun _ hu => Option.some.inj hu ▸ h.root
  current := h.current

theorem wellFormed_addFile (content : List UInt8) : (w.addFile path content).WellFormed :=
  wellFormed_put h path (.file content)

theorem wellFormed_addDirectory : (w.addDirectory path).WellFormed := by
  simp only [addDirectory]
  split
  · exact h
  · exact wellFormed_put h path Tree.wellFormed_nil

end Workspace

end ClassAtlas
