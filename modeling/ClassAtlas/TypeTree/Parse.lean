/-
Reading a type expression as a type tree.

An expression in parentheses, marks after it apart, is a tuple. Otherwise the text from the first `<` to the last `>`
holds the type arguments; what comes after them is dropped. An expression with neither is a leaf, which keeps its marks.
The arguments are separated by commas outside angle and round brackets. A tuple element may have a name after its
type; the name is dropped.
-/
import ClassAtlas.Nesting.Search
import ClassAtlas.TypeTree.Basic
import ClassAtlas.TypeTree.Nominal

namespace ClassAtlas.TypeTree

open Nesting (Delimiters)

/-- the inside of a tuple: the opening parenthesis closes at the very end -/
def insideTuple? : Text → Option Text
  | '(' :: rest =>
    match Nesting.cut? Delimiters.round [')'] rest with
    | some (inner, [_]) => some inner
    | _ => none
  | _ => none

/-- what stands before the first `<`, and between it and the last `>` -/
def insideAngles? (s : Text) : Option (Text × Text) := do
  let (base, rest) ← Text.splitFirst? '<' s
  let (inner, _) ← Text.splitLast? '>' rest
  return (Text.trim base, inner)

/-- the base name and the argument list of a tuple or a generic type -/
def arguments? (s : Text) : Option (Text × Text) :=
  match insideTuple? (withoutMarks s) with
  | some inner => some ([], inner)
  | none => insideAngles? s

def isClosing (c : Char) : Bool := c == '>' || c == ')' || c == ']'

/-- a tuple element without its name: the last word is dropped if it comes after the last closing bracket and is not
all there is -/
def elementType (part : Text) : Text :=
  let backward := part.reverse
  let tail := backward.takeWhile (!isClosing ·)
  match (tail.dropWhile Text.isBlank).dropWhile (!Text.isBlank ·) with
  | [] => part
  | _ :: before =>
    let type := Text.trim (before ++ backward.dropWhile (!isClosing ·)).reverse
    if type.isEmpty then part else type

/-- the arguments of a list -/
def argumentList (inner : Text) : List Text := Nesting.split Delimiters.grouping ',' inner

theorem length_insideTuple?_lt {s inner : Text} (h : insideTuple? s = some inner) : inner.length < s.length := by
  unfold insideTuple? at h
  split at h
  · split at h
    · rename_i hc
      have := Nesting.cut?_append hc
      obtain rfl := by simpa using h
      subst this
      simp only [List.length_cons, List.length_append]
      omega
    · contradiction
  · contradiction

theorem length_insideAngles?_lt {s base inner : Text} (h : insideAngles? s = some (base, inner)) :
    inner.length < s.length := by
  simp only [insideAngles?, Option.bind_eq_bind, Option.bind_eq_some_iff, Option.pure_def, Option.some.injEq,
    Prod.mk.injEq] at h
  obtain ⟨⟨b, rest⟩, h1, ⟨i, after⟩, h2, -, rfl⟩ := h
  have h1 := Text.splitFirst?_eq_some h1
  have h2 := Text.splitLast?_eq_some h2
  subst h1
  subst h2
  simp only [List.length_append, List.length_cons]
  omega

theorem length_arguments?_lt {s base inner : Text} (h : arguments? s = some (base, inner)) :
    inner.length < s.length := by
  unfold arguments? at h
  split at h
  · rename_i hb
    obtain ⟨-, rfl⟩ := by simpa using h
    exact Nat.lt_of_lt_of_le (length_insideTuple?_lt hb) (length_withoutMarks_le s)
  · exact length_insideAngles?_lt h

theorem length_elementType_le (part : Text) : (elementType part).length ≤ part.length := by
  unfold elementType
  simp only
  split
  · exact Nat.le_refl _
  · rename_i b before hb
    split
    · exact Nat.le_refl _
    · refine Nat.le_trans (Text.length_trim_le _) ?_
      have h1 := (List.dropWhile_suffix (fun c => !Text.isBlank c)
        (l := (part.reverse.takeWhile (!isClosing ·)).dropWhile Text.isBlank)).length_le
      have h2 := (List.dropWhile_suffix Text.isBlank (l := part.reverse.takeWhile (!isClosing ·))).length_le
      have h3 := congrArg List.length
        (List.takeWhile_append_dropWhile (p := fun c => !isClosing c) (l := part.reverse))
      rw [hb] at h1
      simp only [List.length_append, List.length_reverse, List.length_cons] at h1 h3 ⊢
      omega

/-- the tree of a type expression -/
def parse (expr : Text) : TypeTree :=
  match _h : arguments? (Text.trim expr) with
  | some (base, inner) => node base ((argumentList inner).attach.map fun part => parse (elementType part.1))
  | none => leaf (Text.trim expr)
termination_by expr.length
decreasing_by
  have h1 := length_arguments?_lt _h
  have h2 := Text.length_trim_le expr
  have h3 := Nesting.length_le_of_mem_split part.2
  have h4 := length_elementType_le part.1
  omega

/-- the trees of a list of arguments -/
def argumentTrees (inner : Text) : List TypeTree := (argumentList inner).map fun part => parse (elementType part)

theorem parse_eq (expr : Text) : parse expr = match arguments? (Text.trim expr) with
    | some (base, inner) => node base (argumentTrees inner)
    | none => leaf (Text.trim expr) := by
  rw [parse]
  split
  · rename_i base inner h
    rw [h]
    simp [argumentTrees]
  · rename_i h
    rw [h]

end ClassAtlas.TypeTree
