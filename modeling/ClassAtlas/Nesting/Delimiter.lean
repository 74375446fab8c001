/-
Delimiters of source text: four kinds of bracket and two kinds of quotation mark. A scan counts some of them; all others
are ordinary characters to it.
-/
import ClassAtlas.Text.Basic

namespace ClassAtlas.Nesting

/-- the kinds of bracket -/
inductive Bracket where
  | angle
  | round
  | box
  | curly
deriving DecidableEq, Repr

/-- the kinds of quotation mark -/
inductive Quote where
  | double
  | single
deriving DecidableEq, Repr

inductive Delimiter where
  | bracket (b : Bracket)
  | quote (q : Quote)
deriving DecidableEq, Repr

namespace Bracket

def opening : Bracket → Char
  | angle => '<'
  | round => '('
  | box => '['
  | curly => '{'

def closing : Bracket → Char
  | angle => '>'
  | round => ')'
  | box => ']'
  | curly => '}'

def all : List Bracket := [angle, round, box, curly]

/-- the bracket that the character opens -/
def ofOpening? (c : Char) : Option Bracket := all.find? fun b => b.opening == c

/-- the bracket that the character closes -/
def ofClosing? (c : Char) : Option Bracket := all.find? fun b => b.closing == c

end Bracket

namespace Quote

def mark : Quote → Char
  | double => '"'
  | single => '\''

def all : List Quote := [double, single]

/-- the quotation mark that the character is -/
def ofChar? (c : Char) : Option Quote := all.find? fun q => q.mark == c

end Quote

/-- the delimiters that a scan counts -/
abbrev Delimiters := List Delimiter

namespace Delimiters

def angle : Delimiters := [.bracket .angle]
def round : Delimiters := [.bracket .round]
def box : Delimiters := [.bracket .box]
def curly : Delimiters := [.bracket .curly]
def double : Delimiters := [.quote .double]
def single : Delimiters := [.quote .single]

/-- both quotation marks -/
def literals : Delimiters := double ++ single

/-- the brackets that group type arguments and tuples -/
def grouping : Delimiters := angle ++ round

def all : Delimiters := angle ++ round ++ box ++ curly ++ literals

/-- is every delimiter of the other list among the counted ones? -/
def covers (counted other : Delimiters) : Bool := List.all other fun d => counted.contains d

end Delimiters

end ClassAtlas.Nesting
