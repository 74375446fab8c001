/-
Searching and splitting text at the top level.

`cutFrom` scans until it stands at the top level before a text that passes a test, and cuts there. `cut?` looks for a
needle and `cutWhere?` for a character; `offset?` and `offsetWhere?` give the same places as byte offsets. `split`
cuts at every top-level separator; the scan does not step over the separators themselves.
-/
import ClassAtlas.Nesting.State

namespace ClassAtlas.Nesting

/-- cuts before the first top-level position whose remaining text, which is not empty, passes the test -/
def cutFrom (counted : Delimiters) (test : Text → Bool) : State → Text → Option (Text × Text)
  | _, [] => none
  | s, c :: rest =>
    if s.atTop && test (c :: rest) then some ([], c :: rest)
    else (cutFrom counted test (s.step counted c) rest).map fun p => (c :: p.1, p.2)

/-- cuts before the first top-level needle; the second part starts with it. An empty needle is never found. -/
def cut? (counted : Delimiters) (needle text : Text) : Option (Text × Text) :=
  if needle.isEmpty then none else cutFrom counted (fun rest => needle.isPrefixOf rest) {} text

/-- cuts before the first top-level character that passes the test -/
def cutWhere? (counted : Delimiters) (test : Char → Bool) (text : Text) : Option (Text × Text) :=
  cutFrom counted (fun rest => rest.head?.any test) {} text

/-- what stands before the first top-level needle, or the whole text -/
def before (counted : Delimiters) (needle text : Text) : Text := ((cut? counted needle text).map Prod.fst).getD text

/-- the byte offset that a cut gives when the scan starts at the byte offset `start`; none if that is no place in the
text -/
def offsetFrom? (cut : Text → Option (Text × Text)) (text : Text) (start : Nat) : Option Nat := do
  let (_, tail) ← Text.splitAtByte? text start
  let (skipped, _) ← cut tail
  return start + Text.byteLength skipped

/-- the byte offset of the first top-level needle at or after `start` -/
def offset? (counted : Delimiters) (needle text : Text) (start : Nat) : Option Nat :=
  offsetFrom? (cut? counted needle) text start

/-- the byte offset of the first top-level character at or after `start` that passes the test -/
def offsetWhere? (counted : Delimiters) (test : Char → Bool) (text : Text) (start : Nat) : Option Nat :=
  offsetFrom? (cutWhere? counted test) text start

/-- the pieces between top-level separators -/
def piecesFrom (counted : Delimiters) (separator : Char) : State → Text → List Text
  | _, [] => [[]]
  | s, c :: rest =>
    if s.atTop && c == separator then [] :: piecesFrom counted separator s rest
    else Text.consFirst c (piecesFrom counted separator (s.step counted c) rest)

/-- the pieces between top-level separators, trimmed, without the empty ones -/
def split (counted : Delimiters) (separator : Char) (text : Text) : List Text :=
  ((piecesFrom counted separator {} text).map Text.trim).filter fun piece => !piece.isEmpty

theorem cutFrom_append {counted : Delimiters} {test : Text → Bool} {s : State} {text a b : Text}
    (h : cutFrom counted test s text = some (a, b)) : text = a ++ b := by
  induction text generalizing s a b with
  | nil => simp [cutFrom] at h
  | cons c rest ih =>
    unfold cutFrom at h
    split at h
    · obtain ⟨rfl, rfl⟩ := by simpa using h
      rfl
    · obtain ⟨p, hp, he⟩ := Option.map_eq_some_iff.1 h
      obtain ⟨rfl, rfl⟩ := by simpa using he
      simpa using ih hp

theorem cut?_append {counted : Delimiters} {needle text a b : Text} (h : cut? counted needle text = some (a, b)) :
    text = a ++ b := by
  unfold cut? at h
  split at h
  · contradiction
  · exact cutFrom_append h

theorem mem_consFirst_length {c : Char} {pieces : List Text} {piece : Text} {n : Nat}
    (h : ∀ q ∈ pieces, q.length ≤ n) (hp : piece ∈ Text.consFirst c pieces) : piece.length ≤ n + 1 := by
  cases pieces with
  | nil => simp [Text.consFirst] at hp; simp [hp]
  | cons q qs =>
    simp only [Text.consFirst, List.mem_cons] at hp
    rcases hp with rfl | hp
    · simpa using h q (by simp)
    · exact Nat.le_succ_of_le (h piece (by simp [hp]))

theorem length_le_of_mem_piecesFrom {counted : Delimiters} {separator : Char} {s : State} {text piece : Text}
    (h : piece ∈ piecesFrom counted separator s text) : piece.length ≤ text.length := by
  induction text generalizing s piece with
  | nil => simp [piecesFrom] at h; simp [h]
  | cons c rest ih =>
    unfold piecesFrom at h
    split at h
    · rcases List.mem_cons.1 h with rfl | h
      · simp
      · exact Nat.le_succ_of_le (ih h)
    · exact mem_consFirst_length (fun q hq => ih hq) h

/-- no piece is longer than the text -/
theorem length_le_of_mem_split {counted : Delimiters} {separator : Char} {text piece : Text}
    (h : piece ∈ split counted separator text) : piece.length ≤ text.length := by
  obtain ⟨p, hp, rfl⟩ := List.mem_map.1 (List.mem_filter.1 h).1
  exact Nat.le_trans (Text.length_trim_le p) (length_le_of_mem_piecesFrom hp)

end ClassAtlas.Nesting
