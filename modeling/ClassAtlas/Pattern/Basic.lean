/-
Patterns: ways to match the start of a text, best first.

A pattern gives the list of its matches at the start of a text, in the order in which a matcher that prefers the
earlier alternative and the longer repetition would try them. The match that counts is the first one of the list
(`first?`); the others are what remains to be tried when a later part of a larger pattern fails. A match holds the
text it took and the text it left: together they are the text that was given.

A run of characters of one kind (`span`) is one match, the longest. Shorter runs would only matter to a pattern that
could go on with a character of that kind, and no run here stands before such a pattern.

`atWordStarts` finds all matches inside a text that start where a word starts, from left to right, none of them
overlapping another.
-/
import ClassAtlas.Text.Word

namespace ClassAtlas

/-- one way to match the start of a text -/
structure Match (α : Type) where
  value : α
  taken : Text
  rest : Text

/-- all ways to match the start of a text, best first -/
def Pattern (α : Type) : Type := Text → List (Match α)

namespace Pattern

variable {α β : Type}

/-- takes nothing -/
def succeed (a : α) : Pattern α := fun s => [⟨a, [], s⟩]

/-- one pattern after another; the earlier one's choices are exhausted last -/
def andThen (p : Pattern α) (f : α → Pattern β) : Pattern β := fun s =>
  (p s).flatMap fun m => (f m.value m.rest).map fun n => ⟨n.value, m.taken ++ n.taken, n.rest⟩

instance : Monad Pattern where
  pure := succeed
  bind := andThen

/-- the first pattern, or else the second -/
def or (p q : Pattern α) : Pattern α := fun s => p s ++ q s

/-- one character that passes the test -/
def satisfy (test : Char → Bool) : Pattern Unit
  | [] => []
  | c :: rest => if test c then [⟨(), [c], rest⟩] else []

/-- the given characters -/
def literal (word : Text) : Pattern Unit := fun s =>
  if word.isPrefixOf s then [⟨(), word, s.drop word.length⟩] else []

/-- one of the words, the earlier first -/
def oneOf (words : List Text) : Pattern Unit := fun s => words.flatMap fun w => literal w s

/-- the pattern if it matches, or nothing -/
def optional (p : Pattern Unit) : Pattern Unit := p.or (succeed ())

/-- the pattern up to `n` times, as often as possible -/
def upTo : Nat → Pattern Unit → Pattern Unit
  | 0, _ => succeed ()
  | n + 1, p => optional (p.andThen fun _ => upTo n p)

/-- the longest run of at most `most` characters that pass the test, if it has at least `least`. Nothing of it is given
back, so it stands only before patterns that cannot start with such a character. -/
def span (test : Char → Bool) (least most : Nat) : Pattern Unit := fun s =>
  let run := (s.take most).takeWhile test
  if run.length < least then [] else [⟨(), run, s.drop run.length⟩]

/-- the longest run of characters that pass the test, if it has at least `least`; nothing of it is given back -/
def spanAll (test : Char → Bool) (least : Nat) : Pattern Unit := fun s =>
  let run := s.takeWhile test
  if run.length < least then [] else [⟨(), run, s.drop run.length⟩]

/-- at most `most` characters that pass the test and then the closing character, which may be one of those that pass:
the last place where it can close comes first -/
def closedBy (closing : Char) (test : Char → Bool) (most : Nat) : Pattern Unit := fun s =>
  let longest := ((s.take most).takeWhile test).length
  (List.range (longest + 1)).reverse.filterMap fun n =>
    match s.drop n with
    | c :: rest => if c = closing then some ⟨(), s.take (n + 1), rest⟩ else none
    | [] => none

/-- any number of blanks -/
def blanks : Pattern Unit := spanAll Text.isBlank 0

/-- at least one blank -/
def someBlanks : Pattern Unit := spanAll Text.isBlank 1

/-- nothing, before the end or a character that is no word character -/
def notBeforeWord : Pattern Unit := fun s => if s.head?.any Text.isWord then [] else [⟨(), [], s⟩]

/-- the pattern, with the text that it takes as its value -/
def capture (p : Pattern α) : Pattern Text := fun s => (p s).map fun m => ⟨m.taken, m.taken, m.rest⟩

/-- the match that counts -/
def first? (p : Pattern α) (s : Text) : Option (Match α) := (p s).head?

/-- does a word start after this character, if a word character comes next? -/
def startsWord (previous : Option Char) : Bool := !previous.any Text.isWord

/-- the matches at word starts of a text, each with the character before it. The scan passes over the next `skip`
characters, which belong to the match found last. -/
def scanWords (p : Pattern α) : Nat → Option Char → Text → List (Option Char × Match α)
  | _, _, [] => []
  | skip + 1, _, c :: rest => scanWords p skip (some c) rest
  | 0, previous, c :: rest =>
    match if startsWord previous then p.first? (c :: rest) else none with
    | some m => (previous, m) :: scanWords p (m.taken.length - 1) (some c) rest
    | none => scanWords p 0 (some c) rest

/-- all matches that start where a word starts, from left to right, each with the character before it -/
def atWordStarts (p : Pattern α) (text : Text) : List (Option Char × Match α) := scanWords p 0 none text

end Pattern

end ClassAtlas
