/-
The size of a type tree.

Whatever the expression looks like, well formed or not, its tree is made from its characters, and each of them is used
at most once. The texts from which the children are read (`childTexts`) are cut out of the expression one behind the
other, none of them empty and all of them together shorter than the expression. So the names of the tree, one behind
the other, are a subsequence of the expression, and a tree with children has no more nodes than the expression has
characters (`parse_frugal`).
-/
import ClassAtlas.Proofs.TypeTree.Ranks

namespace ClassAtlas.Nesting

variable {counted : Delimiters} {separator : Char}

theorem flatten_piecesFrom_sublist (s : State) (text : Text) :
    (piecesFrom counted separator s text).flatten.Sublist text := by
  induction text generalizing s with
  | nil => exact List.Sublist.refl _
  | cons c rest ih =>
    unfold piecesFrom
    split
    · exact (ih s).cons c
    · rw [Text.flatten_consFirst]
      exact (ih _).cons_cons c

/-- the pieces of a split stand one behind the other in the text -/
theorem flatten_split_sublist (text : Text) : (split counted separator text).flatten.Sublist text := by
  rw [split, List.flatten_filter_not_isEmpty]
  exact (Text.flatMap_sublist_flatten fun piece _ => Text.trim_sublist piece).trans (flatten_piecesFrom_sublist {} text)

theorem ne_nil_of_mem_split {text piece : Text} (h : piece ∈ split counted separator text) : piece ≠ [] := by
  simpa using (List.mem_filter.1 h).2

end ClassAtlas.Nesting

namespace ClassAtlas.TypeTree

/-! ## The parts of an expression -/

theorem elementType_sublist (part : Text) : (elementType part).Sublist part := by
  unfold elementType
  dsimp only
  split
  · exact List.Sublist.refl _
  · rename_i blank before hbefore
    split
    · exact List.Sublist.refl _
    · -- what stands before the name, read backwards, is the end of the part
      have hsuffix : blank :: before <:+ part.reverse.takeWhile (!isClosing ·) :=
        hbefore ▸ (List.dropWhile_suffix _).trans (List.dropWhile_suffix _)
      have hbackward : (before ++ part.reverse.dropWhile (!isClosing ·)).Sublist part.reverse := by
        conv_rhs => rw [← List.takeWhile_append_dropWhile (p := (!isClosing ·)) (l := part.reverse)]
        exact (((List.suffix_cons blank before).trans hsuffix).sublist).append (List.Sublist.refl _)
      have hforward := hbackward.reverse
      rw [List.reverse_reverse] at hforward
      exact (Text.trim_sublist _).trans hforward

theorem elementType_ne_nil {part : Text} (h : part ≠ []) : elementType part ≠ [] := by
  unfold elementType
  dsimp only
  split
  · exact h
  · split
    · exact h
    · rename_i hne
      simpa using hne

theorem insideTuple?_sublist {s inner : Text} (h : insideTuple? s = some inner) : inner.Sublist s := by
  unfold insideTuple? at h
  split at h
  · split at h
    · rename_i rest _ last hcut
      obtain rfl := Option.some.inj h
      rw [Nesting.cut?_append hcut]
      exact (List.sublist_append_left _ _).cons _
    · contradiction
  · contradiction

theorem insideAngles?_sublist {s base inner : Text} (h : insideAngles? s = some (base, inner)) :
    (base ++ inner).Sublist s := by
  simp only [insideAngles?, Option.bind_eq_bind, Option.bind_eq_some_iff, Option.pure_def, Option.some.injEq,
    Prod.mk.injEq] at h
  obtain ⟨⟨before, rest⟩, hfirst, ⟨inner, after⟩, hlast, rfl, rfl⟩ := h
  obtain rfl : rest = inner ++ '>' :: after := Text.splitLast?_eq_some hlast
  rw [Text.splitFirst?_eq_some hfirst]
  exact (Text.trim_sublist before).append ((List.sublist_append_left _ _).cons '<')

/-- the base name and the argument list stand one behind the other in the expression -/
theorem arguments?_sublist {s base inner : Text} (h : arguments? s = some (base, inner)) :
    (base ++ inner).Sublist s := by
  unfold arguments? at h
  split at h
  · rename_i hinside
    obtain ⟨rfl, rfl⟩ := by simpa using h
    exact (insideTuple?_sublist hinside).trans (withoutMarks_isPrefix s).sublist
  · exact insideAngles?_sublist h

/-! ## Children -/

/-- the texts from which the children of an argument list are read -/
def argumentTexts (inner : Text) : List Text := (argumentList inner).map elementType

/-- the texts from which the children of an expression's tree are read -/
def childTexts (expr : Text) : List Text :=
  match arguments? (Text.trim expr) with
  | some (_, inner) => argumentTexts inner
  | none => []

theorem argumentTrees_eq (inner : Text) : argumentTrees inner = (argumentTexts inner).map parse := by
  rw [argumentTexts, List.map_map]
  rfl

theorem argumentTexts_sublist (inner : Text) : (argumentTexts inner).flatten.Sublist inner :=
  (Text.flatMap_sublist_flatten fun part _ => elementType_sublist part).trans (Nesting.flatten_split_sublist inner)

theorem ne_nil_of_mem_argumentTexts {inner part : Text} (h : part ∈ argumentTexts inner) : part ≠ [] := by
  obtain ⟨argument, hargument, rfl⟩ := List.mem_map.1 h
  exact elementType_ne_nil (Nesting.ne_nil_of_mem_split hargument)

/-- an expression is a leaf, or a name and texts of children that stand one behind the other in it -/
theorem parse_cases (expr : Text) :
    parse expr = leaf (Text.trim expr) ∧ childTexts expr = [] ∨
      ∃ base, parse expr = node base ((childTexts expr).map parse) ∧ (base ++ (childTexts expr).flatten).Sublist expr ∧
        (childTexts expr).flatten.length < expr.length := by
  have htrim := Text.trim_sublist expr
  rw [parse_eq, childTexts]
  cases harguments : arguments? (Text.trim expr) with
  | none => exact Or.inl ⟨rfl, rfl⟩
  | some p =>
    obtain ⟨base, inner⟩ := p
    have htexts := argumentTexts_sublist inner
    have hshort := length_arguments?_lt harguments
    refine Or.inr ⟨base, congrArg (node base) (argumentTrees_eq inner), ?_, ?_⟩
    · exact ((List.Sublist.refl base).append htexts).trans ((arguments?_sublist harguments).trans htrim)
    · exact Nat.lt_of_le_of_lt htexts.length_le (Nat.lt_of_lt_of_le hshort htrim.length_le)

theorem ne_nil_of_mem_childTexts {expr part : Text} (h : part ∈ childTexts expr) : part ≠ [] := by
  unfold childTexts at h
  split at h
  · exact ne_nil_of_mem_argumentTexts h
  · contradiction

theorem length_lt_of_mem_childTexts {expr part : Text} (h : part ∈ childTexts expr) : part.length < expr.length := by
  rcases parse_cases expr with ⟨-, hnone⟩ | ⟨base, -, -, hshort⟩
  · rw [hnone] at h
    contradiction
  · exact Nat.lt_of_le_of_lt (List.sublist_flatten_of_mem h).length_le hshort

theorem children_parse (expr : Text) : (parse expr).children = (childTexts expr).map parse := by
  rcases parse_cases expr with ⟨hparse, hnone⟩ | ⟨base, hparse, -⟩
  · rw [hparse, hnone]
    rfl
  · rw [hparse, children]

/-! ## Nodes and names -/

theorem subtreesOfAll_eq (ts : List TypeTree) : subtreesOfAll ts = ts.flatMap subtrees := by
  induction ts with
  | nil => rfl
  | cons t ts ih => rw [subtreesOfAll, ih, List.flatMap_cons]

theorem subtrees_node (base : Text) (ts : List TypeTree) :
    (node base ts).subtrees = node base ts :: ts.flatMap subtrees := by
  rw [subtrees, subtreesOfAll_eq]

theorem names_node (base : Text) (ts : List TypeTree) : (node base ts).names = base :: ts.flatMap names := by
  rw [names, subtrees_node, List.map_cons, List.map_flatMap]
  rfl

/-- the tree of an expression, from those of the texts of its children -/
theorem parse_induction {P : Text → TypeTree → Prop} (hleaf : ∀ expr, P expr (leaf (Text.trim expr)))
    (hnode : ∀ expr base (texts : List Text), (base ++ texts.flatten).Sublist expr →
      texts.flatten.length < expr.length → (∀ text ∈ texts, text ≠ [] ∧ P text (parse text)) →
      P expr (node base (texts.map parse)))
    (expr : Text) : P expr (parse expr) := by
  rcases parse_cases expr with ⟨hparse, -⟩ | ⟨base, hparse, hsublist, hshort⟩
  · rw [hparse]
    exact hleaf expr
  · rw [hparse]
    refine hnode expr base _ hsublist hshort fun text htext => ⟨ne_nil_of_mem_childTexts htext, ?_⟩
    exact parse_induction hleaf hnode text
termination_by expr.length
decreasing_by exact length_lt_of_mem_childTexts htext

/-- the names of the tree, one behind the other, are a subsequence of the expression -/
theorem flatten_names_sublist (expr : Text) : (parse expr).names.flatten.Sublist expr := by
  refine parse_induction (P := fun expr tree => tree.names.flatten.Sublist expr) (fun expr => ?_) ?_ expr
  · have hname : (leaf (Text.trim expr)).names.flatten = Text.trim expr := by
      rw [leaf, names_node]
      simp
    rw [hname]
    exact Text.trim_sublist expr
  · intro expr base texts hsublist _ htexts
    have hnames : (node base (texts.map parse)).names.flatten =
        base ++ texts.flatMap fun text => (parse text).names.flatten := by
      rw [names_node, List.flatten_cons, List.flatMap_map]
      simp only [List.flatten_eq_flatMap, List.flatMap_assoc]
    rw [hnames]
    refine List.Sublist.trans ((List.Sublist.refl base).append ?_) hsublist
    exact Text.flatMap_sublist_flatten fun text htext => (htexts text htext).2

/-- every child takes a character of its own, and the brackets around them leave one for the node above -/
theorem length_subtrees_le (expr : Text) : (parse expr).subtrees.length ≤ max 1 expr.length := by
  refine parse_induction (P := fun expr tree => tree.subtrees.length ≤ max 1 expr.length) (fun expr => ?_) ?_ expr
  · rw [leaf, subtrees_node]
    exact Nat.le_max_left 1 _
  · intro expr base texts _ hshort htexts
    have hbelow : ((texts.map parse).flatMap subtrees).length ≤ texts.flatten.length := by
      rw [List.flatMap_map]
      refine Text.length_flatMap_le fun text htext => ?_
      obtain ⟨hne, hle⟩ := htexts text htext
      rwa [Nat.max_eq_right (List.length_pos_iff.2 hne)] at hle
    rw [subtrees_node, List.length_cons]
    omega

/-- **A tree neither invents nor multiplies text**, whatever the expression is. Its names, one behind the other, are a
subsequence of the expression. It has one node, or no more nodes than the expression has characters. Every child is read
from a text that is shorter than the expression. -/
theorem parse_frugal (expr : Text) :
    (parse expr).names.flatten.Sublist expr ∧ (parse expr).subtrees.length ≤ max 1 expr.length ∧
      (parse expr).children = (childTexts expr).map parse ∧ ∀ text ∈ childTexts expr, text.length < expr.length :=
  ⟨flatten_names_sublist expr, length_subtrees_le expr, children_parse expr, fun _ => length_lt_of_mem_childTexts⟩

end ClassAtlas.TypeTree
