/-
Writing JSON values.

A value is written on one line (`flat`) or over many (`indented`, two blanks for each level). An empty array or object
is written as its two brackets in both layouts. In a string the quotation mark, the backslash and the control
characters below U+0020 are escaped; every other character stands for itself.
-/
import ClassAtlas.Json.Basic

namespace ClassAtlas.Json

/-- how the parts of a value are set apart -/
inductive Layout where
  | flat
  | indented
deriving DecidableEq, Repr

/-- the digit of a number below 16, in lower case -/
def hexDigit (n : Nat) : Char := if n < 10 then Char.ofNat (0x30 + n) else Char.ofNat (0x57 + n)

def escapeChar (c : Char) : Text :=
  if c = '"' then ['\\', '"']
  else if c = '\\' then ['\\', '\\']
  else if c = '\n' then ['\\', 'n']
  else if c = '\r' then ['\\', 'r']
  else if c = '\t' then ['\\', 't']
  else if c.toNat = 0x08 then ['\\', 'b']
  else if c.toNat = 0x0C then ['\\', 'f']
  else if c.toNat < 0x20 then ['\\', 'u', '0', '0', hexDigit (c.toNat / 16), hexDigit (c.toNat % 16)]
  else [c]

/-- a text between quotation marks -/
def quote (s : Text) : Text := '"' :: (s.flatMap escapeChar ++ ['"'])

def ofInteger : Int → Text
  | .ofNat n => Text.ofNat n
  | .negSucc n => '-' :: Text.ofNat (n + 1)

namespace Layout

/-- the start of a line at a level -/
def newline : Layout → Nat → Text
  | flat, _ => []
  | indented, level => '\n' :: List.replicate (2 * level) ' '

/-- what stands between a field's name and its value -/
def colon : Layout → Text
  | flat => [':']
  | indented => [':', ' ']

/-- written elements between two brackets -/
def enclose (layout : Layout) (level : Nat) (opening closing : Char) : List Text → Text
  | [] => [opening, closing]
  | parts =>
    opening :: (layout.newline (level + 1) ++ List.intercalate (',' :: layout.newline (level + 1)) parts ++
      layout.newline level ++ [closing])

end Layout

mutual

/-- the value as text, its first line already standing at the level -/
def renderAt (layout : Layout) (level : Nat) : Json → Text
  | null => ['n', 'u', 'l', 'l']
  | bool true => ['t', 'r', 'u', 'e']
  | bool false => ['f', 'a', 'l', 's', 'e']
  | integer n => ofInteger n
  | decimal spelling => spelling
  | text s => quote s
  | array items => layout.enclose level '[' ']' (renderItems layout (level + 1) items)
  | object fields => layout.enclose level '{' '}' (renderFields layout (level + 1) fields)

def renderItems (layout : Layout) (level : Nat) : List Json → List Text
  | [] => []
  | v :: vs => renderAt layout level v :: renderItems layout level vs

def renderFields (layout : Layout) (level : Nat) : List (Text × Json) → List Text
  | [] => []
  | (name, v) :: fs => (quote name ++ layout.colon ++ renderAt layout level v) :: renderFields layout level fs

end

/-- the value as text -/
def render (layout : Layout) (v : Json) : Text := renderAt layout 0 v

end ClassAtlas.Json
