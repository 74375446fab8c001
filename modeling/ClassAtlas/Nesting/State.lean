/-
How deep a scan stands inside brackets and literals.

A state holds a level for each kind of bracket and whether the scan is inside a quoted literal. `step` takes one
character; `run` takes a text. Inside a literal only the end of that literal matters: a backslash escapes the next
character, except in a verbatim literal, which is a double-quoted one whose mark follows an `@`. Levels may become
negative, and the depth is their sum, plus one inside a literal. Depth 0 is the top level. Levels have no bound of their
own; none is larger than the text is long.
-/
import ClassAtlas.Nesting.Delimiter

namespace ClassAtlas.Nesting

/-- opened minus closed brackets of each kind -/
structure Levels where
  angle : Int := 0
  round : Int := 0
  box : Int := 0
  curly : Int := 0
deriving DecidableEq, Repr

namespace Levels

def get (l : Levels) : Bracket → Int
  | .angle => l.angle
  | .round => l.round
  | .box => l.box
  | .curly => l.curly

/-- adds to the level of one kind -/
def add (l : Levels) (b : Bracket) (n : Int) : Levels :=
  match b with
  | .angle => { l with angle := l.angle + n }
  | .round => { l with round := l.round + n }
  | .box => { l with box := l.box + n }
  | .curly => { l with curly := l.curly + n }

def total (l : Levels) : Int := l.angle + l.round + l.box + l.curly

@[simp] theorem get_add (l : Levels) (b b' : Bracket) (n : Int) :
    (l.add b n).get b' = if b' = b then l.get b' + n else l.get b' := by
  cases b <;> cases b' <;> simp [get, add]

@[simp] theorem total_add (l : Levels) (b : Bracket) (n : Int) : (l.add b n).total = l.total + n := by
  cases b <;> simp only [add, total] <;> omega

end Levels

/-- whether a scan reads code or the inside of a literal -/
inductive Mode where
  | code
  /-- inside a literal; `escaped` holds right after an escaping backslash -/
  | literal (quote : Quote) (verbatim escaped : Bool)
deriving DecidableEq, Repr

structure State where
  levels : Levels := {}
  mode : Mode := .code
  /-- the character read last -/
  previous : Option Char := none
deriving DecidableEq, Repr

namespace Mode

/-- one character inside a literal -/
def advance (c : Char) : Mode → Mode
  | code => code
  | literal q verbatim true => literal q verbatim false
  | literal q verbatim false =>
    if c = q.mark then code
    else literal q verbatim (c == '\\' && !verbatim)

end Mode

namespace State

/-- a literal starts; it is verbatim if an `@` stands before a double mark -/
def openLiteral (s : State) (q : Quote) : State :=
  { s with mode := .literal q (q == .double && s.previous == some '@') false }

/-- one character of code -/
def readCode (counted : Delimiters) (s : State) (c : Char) : State :=
  match Quote.ofChar? c, Bracket.ofOpening? c, Bracket.ofClosing? c with
  | some q, _, _ => if counted.contains (.quote q) then s.openLiteral q else s
  | none, some b, _ => if counted.contains (.bracket b) then { s with levels := s.levels.add b 1 } else s
  | none, none, some b => if counted.contains (.bracket b) then { s with levels := s.levels.add b (-1) } else s
  | none, none, none => s

/-- the state after one more character -/
def step (counted : Delimiters) (s : State) (c : Char) : State :=
  let next := match s.mode with
    | .code => s.readCode counted c
    | .literal .. => { s with mode := s.mode.advance c }
  { next with previous := some c }

/-- the state after a whole text -/
def run (counted : Delimiters) (s : State) (text : Text) : State := text.foldl (step counted) s

def inQuotes (s : State) : Bool := s.mode != .code

def depth (s : State) : Int := s.levels.total + if s.inQuotes then 1 else 0

def atTop (s : State) : Bool := s.depth == 0

@[simp] theorem run_nil (counted : Delimiters) (s : State) : run counted s [] = s := rfl

@[simp] theorem run_cons (counted : Delimiters) (s : State) (c : Char) (text : Text) :
    run counted s (c :: text) = run counted (s.step counted c) text := rfl

theorem run_append (counted : Delimiters) (s : State) (a b : Text) :
    run counted s (a ++ b) = run counted (run counted s a) b := List.foldl_append

end State

end ClassAtlas.Nesting
