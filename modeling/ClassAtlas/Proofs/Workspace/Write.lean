/-
What a write changes.

A workspace is seen here as what there is at each place: nothing, a directory, or a file with its content (`item?`).
Following a path looks at nothing else (`step_eq`). A write puts a file at one place, in a directory that is there, where
no directory is. So nothing changes at any other place, and no directory comes or goes (`item?_put`). All that was
passed on the way is still there, and the path of the file leads to it afterwards (`resolve_write`).
-/
import ClassAtlas.Proofs.Workspace.Tree

namespace ClassAtlas

/-- what there is at a place -/
inductive Item where
  | file (content : List UInt8)
  | directory
deriving DecidableEq, Repr

namespace Tree

def item : Tree → Item
  | file content => .file content
  | directory _ => .directory

def item? (t : Tree) (place : Place) : Option Item := (t.node? place).map item

theorem node?_singleton (t : Tree) (name : Text) : t.node? [name] = t.entry? name := by
  rw [node?_cons]
  cases t.entry? name <;> rfl

theorem node?_file_cons (content : List UInt8) (name : Text) (place : Place) :
    (file content).node? (name :: place) = none := rfl

theorem item?_eq_directory {t : Tree} {place : Place} :
    t.item? place = some .directory ↔ ∃ entries, t.node? place = some (directory entries) := by
  unfold item?
  cases t.node? place with
  | none => simp
  | some u => cases u <;> simp [item]

/-! ## Putting a node -/

theorem entry?_alterEntry (name : Text) (f : Option Tree → Tree) (entries : List (Text × Tree)) (n : Text) :
    entry? (directory (alterEntry name f entries)) n =
      if n = name then some (f <| entry? (directory entries) name) else entry? (directory entries) n := by
  induction entries with
  | nil =>
    by_cases h : n = name
    · simp [alterEntry, entry?, h]
    · simp [alterEntry, entry?, h, Ne.symm h]
  | cons e entries ih =>
    obtain ⟨m, t⟩ := e
    unfold entry? at ih
    by_cases hm : m = name
    · subst hm
      by_cases h : n = m
      · simp [alterEntry, entry?, h]
      · simp [alterEntry, entry?, h, Ne.symm h]
    · by_cases h : n = m
      · subst h
        simp [alterEntry, entry?, hm]
      · simp [alterEntry, entry?, hm, Ne.symm h, ih]

theorem node?_put_self (node : Tree) (place : Place) (t : Option Tree) : (put node place t).node? place = some node := by
  induction place generalizing t with
  | nil => rfl
  | cons name rest ih =>
    have hnew : (directory [(name, put node rest none)]).node? (name :: rest) = some node := by
      rw [node?_cons]
      unfold entry?
      simpa using ih none
    cases t with
    | none => exact hnew
    | some t =>
      cases t with
      | file content => exact hnew
      | directory entries =>
        rw [put, node?_cons, entry?_alterEntry, if_pos rfl]
        exact ih _

/-- a file is put where no directory is, into a directory that is there: nothing changes elsewhere -/
theorem item?_put {t : Tree} {parent : Place} {name : Text} (hparent : t.item? parent = some .directory)
    (hname : t.item? (parent ++ [name]) ≠ some .directory) (content : List UInt8) {q : Place}
    (hq : q ≠ parent ++ [name]) : (put (.file content) (parent ++ [name]) (some t)).item? q = t.item? q := by
  induction parent generalizing t q with
  | nil =>
    obtain ⟨entries, ht⟩ := item?_eq_directory.1 hparent
    obtain rfl := Option.some.inj ht
    cases q with
    | nil => rfl
    | cons n rest =>
      simp only [item?, List.nil_append, put, node?_cons, entry?_alterEntry]
      by_cases hn : n = name
      · -- below the place there is nothing, before and after
        subst hn
        cases rest with
        | nil => exact absurd rfl hq
        | cons n' rest =>
          rw [if_pos rfl, Option.bind_some, node?_file_cons]
          cases hentry : entry? (directory entries) n with
          | none => rfl
          | some u =>
            cases u with
            | file old => rfl
            | directory inner =>
              refine absurd ?_ hname
              rw [item?, List.nil_append, node?_cons, hentry]
              rfl
      · rw [if_neg hn]
  | cons directoryName parent ih =>
    obtain ⟨inner, ht⟩ := item?_eq_directory.1 hparent
    rw [node?_cons] at ht
    obtain ⟨u, hentry, hu⟩ := Option.bind_eq_some_iff.1 ht
    cases t with
    | file old => cases hentry
    | directory entries =>
      cases q with
      | nil => rfl
      | cons n rest =>
        simp only [item?, List.cons_append, put, node?_cons, entry?_alterEntry]
        by_cases hn : n = directoryName
        · subst hn
          rw [if_pos rfl, hentry, Option.bind_some, Option.bind_some]
          refine ih (item?_eq_directory.2 ⟨inner, hu⟩) ?_ fun hrest => hq (by rw [hrest, List.cons_append])
          rw [item?, List.cons_append, node?_cons, hentry] at hname
          exact hname
        · rw [if_neg hn]

end Tree

/-! ## Paths -/

namespace Workspace

/-- what there is at a place of the workspace -/
def item? (w : Workspace) (place : Place) : Option Item := w.root.item? place

theorem step_eq (w : Workspace) (place : Place) (segment : Text) : w.step place segment =
    match w.item? place with
    | none => .error .notFound
    | some (.file _) => .error .notDirectory
    | some .directory =>
      if segment = Path.dot then .ok place
      else if segment = Path.dotDot then .ok place.dropLast
      else if Text.byteLength segment > 255 then .error .nameTooLong
      else if (w.item? (place ++ [segment])).isSome then .ok (place ++ [segment])
      else .error .notFound := by
  have hnext : (w.item? (place ++ [segment])).isSome = ((w.node? place).bind fun t => t.entry? segment).isSome := by
    simp only [item?, Tree.item?, Option.isSome_map, Tree.node?_append, Tree.node?_singleton, node?]
  rw [hnext, step, item?, Tree.item?, node?]
  cases w.root.node? place with
  | none => rfl
  | some t => cases t <;> rfl

/-- a file has been put at a place where no directory is -/
structure FilePut (w after : Workspace) (place : Place) (content : List UInt8) : Prop where
  item : after.item? place = some (.file content)
  others : ∀ q, q ≠ place → after.item? q = w.item? q
  free : w.item? place ≠ some .directory
  current : after.current = w.current

namespace FilePut

variable {w after : Workspace} {place : Place} {content : List UInt8} (h : FilePut w after place content)

include h

/-- a directory that was there still is, and so is everything that was in it -/
theorem item?_directory {q : Place} (hq : w.item? q = some .directory) : after.item? q = some .directory := by
  rw [h.others q fun he => h.free (he ▸ hq), hq]

theorem isSome_item? {q : Place} (hq : (w.item? q).isSome = true) : (after.item? q).isSome = true := by
  by_cases he : q = place
  · rw [he, h.item]
    rfl
  · rwa [h.others q he]

theorem step {q q' : Place} {segment : Text} (hstep : w.step q segment = .ok q') : after.step q segment = .ok q' := by
  rw [step_eq] at hstep ⊢
  split at hstep
  · cases hstep
  · cases hstep
  · rename_i hdirectory
    rw [h.item?_directory hdirectory]
    dsimp only
    split_ifs at hstep ⊢ with hdot hdotDot hlong hafter hsome hsome
    · exact hstep
    · exact hstep
    · exact hstep
    · exact absurd (h.isSome_item? hsome) hafter

theorem follow {q q' : Place} {segments : List Text} (hfollow : w.follow q segments = .ok q') :
    after.follow q segments = .ok q' := by
  induction segments generalizing q with
  | nil => exact hfollow
  | cons segment segments ih =>
    rw [Workspace.follow, List.foldlM_cons] at hfollow ⊢
    cases hstep : w.step q segment with
    | error e =>
      rw [hstep] at hfollow
      cases hfollow
    | ok next =>
      rw [hstep] at hfollow
      rw [h.step hstep]
      exact ih hfollow

end FilePut

/-! ## Writing -/

/-- a file can be written into a directory that is there, under a name that an entry can have and no directory has -/
theorem targetIn_eq_ok {w : Workspace} {parent place : Place} {name : Text} {slash : Bool}
    (h : w.targetIn parent name slash = .ok place) :
    place = parent ++ [name] ∧ slash = false ∧ name ≠ Path.dot ∧ name ≠ Path.dotDot ∧ ¬ Text.byteLength name > 255 ∧
      w.item? parent = some .directory ∧ w.item? place ≠ some .directory := by
  unfold targetIn at h
  split at h
  · cases h
  · cases h
  · rename_i entries hparent
    split at h
    · cases h
    · rename_i hwritable
      obtain rfl := Except.ok.inj h
      unfold unwritable? at hwritable
      split_ifs at hwritable with hdirectory hlong hentry
      obtain ⟨hdot, hdotDot, hslash⟩ : name ≠ Path.dot ∧ name ≠ Path.dotDot ∧ slash = false := by
        simpa using hdirectory
      refine ⟨rfl, hslash, hdot, hdotDot, hlong, Tree.item?_eq_directory.2 ⟨entries, hparent⟩, ?_⟩
      intro hplace
      obtain ⟨inner, hinner⟩ := Tree.item?_eq_directory.1 hplace
      rw [node?] at hparent
      rw [Tree.node?_append, hparent, Option.bind_some, Tree.node?_singleton] at hinner
      rw [hinner] at hentry
      exact hentry rfl

theorem target_eq_ok {w : Workspace} {path : Path} {place : Place} (h : w.target path = .ok place) :
    malformed? path = none ∧ ∃ segments parent name, path.segments = segments ++ [name] ∧
      w.follow (w.start path) segments = .ok parent ∧ w.targetIn parent name path.endsWithSlash = .ok place := by
  unfold target at h
  split at h
  · cases h
  · cases h
  · rename_i name hmalformed hlast
    obtain ⟨segments, hsegments⟩ := List.getLast?_eq_some_iff.1 hlast
    rw [hsegments, List.dropLast_concat] at h
    split at h
    · cases h
    · rename_i parent hfollow
      exact ⟨hmalformed, segments, parent, name, hsegments, hfollow, h⟩

/-- the path of a file that has been written leads to it -/
theorem resolve_write {w after : Workspace} {path : Path} {content : Text} (h : w.write path content = .ok after) :
    ∃ place, after.resolve path = .ok place ∧ FilePut w after place (Text.encodeUtf8 content) := by
  unfold write at h
  cases htarget : w.target path with
  | error e =>
    rw [htarget] at h
    cases h
  | ok place =>
    rw [htarget] at h
    obtain ⟨hmalformed, segments, parent, name, hsegments, hfollow, htargetIn⟩ := target_eq_ok htarget
    obtain ⟨rfl, hslash, hdot, hdotDot, hlong, hparent, hfree⟩ := targetIn_eq_ok htargetIn
    have hput : FilePut w after (parent ++ [name]) (Text.encodeUtf8 content) := by
      obtain rfl := Except.ok.inj h
      refine ⟨?_, fun q hq => Tree.item?_put hparent hfree _ hq, hfree, rfl⟩
      exact congrArg (Option.map Tree.item) (Tree.node?_put_self _ _ _)
    refine ⟨parent ++ [name], ?_, hput⟩
    -- the way to the directory is the same, and the name is there now
    have hlast : after.step parent name = .ok (parent ++ [name]) := by
      rw [step_eq, hput.item?_directory hparent, hput.item]
      simp [hdot, hdotDot, hlong]
    have hall : after.follow (w.start path) path.segments = .ok (parent ++ [name]) := by
      have hway := hput.follow hfollow
      unfold follow at hway ⊢
      rw [hsegments, List.foldlM_append, hway]
      exact (List.foldlM_cons.trans (bind_pure (after.step parent name))).trans hlast
    have hstart : after.start path = w.start path := by rw [start, start, hput.current]
    rw [resolve, hmalformed, hstart]
    dsimp only
    rw [hall, hslash]
    rfl

/-- reading a file gives back what was written -/
theorem readBytes_write {w after : Workspace} {path : Path} {content : Text} (h : w.write path content = .ok after) :
    after.readBytes path = .ok (Text.encodeUtf8 content) := by
  obtain ⟨place, hresolve, hput⟩ := resolve_write h
  obtain ⟨node, hnode, hitem⟩ := Option.map_eq_some_iff.1 hput.item
  rw [readBytes, hresolve]
  dsimp only
  rw [node?, hnode]
  cases node with
  | directory entries => cases hitem
  | file bytes =>
    obtain rfl := Item.file.inj hitem
    rfl

end Workspace

end ClassAtlas
