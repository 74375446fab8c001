/-
JSON values.

An object keeps its fields in the order in which they are written. Numbers are integers; a number that is written with
a fraction or an exponent, or as a negative zero, is kept as it is spelled.
-/
import ClassAtlas.Text.Basic

namespace ClassAtlas

inductive Json where
  | null
  | bool (b : Bool)
  | integer (n : Int)
  | decimal (spelling : Text)
  | text (s : Text)
  | array (items : List Json)
  | object (fields : List (Text × Json))
deriving Repr, Inhabited

namespace Json

/-- the value of a field; of two fields with one name the later counts -/
def field? (name : Text) : Json → Option Json
  | object fields => (fields.reverse.find? fun f => f.1 == name).map Prod.snd
  | _ => none

def text? : Json → Option Text
  | text s => some s
  | _ => none

def bool? : Json → Option Bool
  | bool b => some b
  | _ => none

def array? : Json → Option (List Json)
  | array items => some items
  | _ => none

/-- the value of an integer that is not negative -/
def natural? : Json → Option Nat
  | integer (.ofNat n) => some n
  | _ => none

def natural (n : Nat) : Json := integer n

def texts (ss : List Text) : Json := array (ss.map text)

/-- the elements of an array, each read by `read` -/
def listOf? {α : Type} (read : Json → Option α) (v : Json) : Option (List α) := do
  (← v.array?).mapM read

/-- the values of the named fields: of an object by their names, of an array by their places -/
def record? (names : List Text) : Json → Option (List Json)
  | array items => if items.length = names.length then some items else none
  | v@(object _) => names.mapM fun n => v.field? n
  | _ => none

end Json

end ClassAtlas
