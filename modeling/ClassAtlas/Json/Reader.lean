/-
Reading JSON values.

`read?` accepts exactly one value, with blanks around it and between its parts. A string may hold escapes; a pair of
surrogate escapes stands for one character, and a surrogate without its partner is refused.

The readers give the value and the text after it. Each step of `readValue`, `readItems` and `readFields` uses one unit
of fuel, and no two steps in a row leave the text as it is, so twice the length of the text is enough.
-/
import ClassAtlas.Json.Basic

namespace ClassAtlas.Json

def isSpace (c : Char) : Bool := c == ' ' || c == '\n' || c == '\r' || c == '\t'

def skipSpace (s : Text) : Text := s.dropWhile isSpace

/-- the value of a hexadecimal digit -/
def hexValue? (c : Char) : Option Nat :=
  if '0' ≤ c ∧ c ≤ '9' then some (c.toNat - 0x30)
  else if 'a' ≤ c ∧ c ≤ 'f' then some (c.toNat - 0x57)
  else if 'A' ≤ c ∧ c ≤ 'F' then some (c.toNat - 0x37)
  else none

def hexUnit? (a b c d : Char) : Option Nat := do
  return (((← hexValue? a) * 16 + (← hexValue? b)) * 16 + (← hexValue? c)) * 16 + (← hexValue? d)

def isLeading (u : Nat) : Bool := 0xD800 ≤ u && u ≤ 0xDBFF

def isTrailing (u : Nat) : Bool := 0xDC00 ≤ u && u ≤ 0xDFFF

/-- the character of an escape of one letter -/
def simpleEscape? (c : Char) : Option Char :=
  if c = '"' ∨ c = '\\' ∨ c = '/' then some c
  else if c = 'n' then some '\n'
  else if c = 'r' then some '\r'
  else if c = 't' then some '\t'
  else if c = 'b' then some (Char.ofNat 0x08)
  else if c = 'f' then some (Char.ofNat 0x0C)
  else none

/-- the characters up to the closing quotation mark -/
def readChars : Text → Option (Text × Text)
  | [] => none
  | '"' :: rest => some ([], rest)
  | '\\' :: 'u' :: a :: b :: c :: d :: rest => do
    let unit ← hexUnit? a b c d
    if isTrailing unit then none
    else if isLeading unit then
      match rest with
      | '\\' :: 'u' :: a' :: b' :: c' :: d' :: rest' =>
        let low ← hexUnit? a' b' c' d'
        if isTrailing low then
          let (s, after) ← readChars rest'
          return (Char.ofNat (0x10000 + (unit - 0xD800) * 0x400 + (low - 0xDC00)) :: s, after)
        else none
      | _ => none
    else
      let (s, after) ← readChars rest
      return (Char.ofNat unit :: s, after)
  | '\\' :: e :: rest => do
    let ch ← simpleEscape? e
    let (s, after) ← readChars rest
    return (ch :: s, after)
  | ch :: rest => do
    if ch.toNat < 0x20 ∨ ch = '\\' then none
    else
      let (s, after) ← readChars rest
      return (ch :: s, after)

/-- digits, at least one -/
def readDigits (s : Text) : Option (Text × Text) :=
  let digits := s.takeWhile Char.isDigit
  if digits.isEmpty then none else some (digits, s.dropWhile Char.isDigit)

/-- a point and digits, if a point comes next -/
def readFraction : Text → Option (Text × Text)
  | '.' :: rest => do
    let (digits, after) ← readDigits rest
    return ('.' :: digits, after)
  | rest => some ([], rest)

/-- an exponent, if its mark comes next -/
def readExponent : Text → Option (Text × Text)
  | [] => some ([], [])
  | e :: rest =>
    if e = 'e' ∨ e = 'E' then
      match rest with
      | '+' :: rest => (readDigits rest).map fun p => (e :: '+' :: p.1, p.2)
      | '-' :: rest => (readDigits rest).map fun p => (e :: '-' :: p.1, p.2)
      | rest => (readDigits rest).map fun p => (e :: p.1, p.2)
    else some ([], e :: rest)

/-- the value of digits -/
def digitsValue (digits : Text) : Nat := Nat.ofDigitChars 10 digits 0

/-- whether a minus sign comes next, and the text after it -/
def readSign : Text → Bool × Text
  | '-' :: rest => (true, rest)
  | rest => (false, rest)

def readNumber (s : Text) : Option (Json × Text) := do
  let (negative, unsigned) := readSign s
  let (digits, rest) ← readDigits unsigned
  if digits.length > 1 ∧ digits.head? = some '0' then none
  else
    let (fraction, rest) ← readFraction rest
    let (exponent, rest) ← readExponent rest
    if fraction.isEmpty ∧ exponent.isEmpty ∧ ¬(negative = true ∧ digitsValue digits = 0) then
      return (integer (if negative then -(digitsValue digits : Int) else digitsValue digits), rest)
    else
      return (decimal ((if negative then ['-'] else []) ++ digits ++ fraction ++ exponent), rest)

/-- a value that is neither a string, an array nor an object -/
def readScalar : Text → Option (Json × Text)
  | 'n' :: 'u' :: 'l' :: 'l' :: rest => some (null, rest)
  | 't' :: 'r' :: 'u' :: 'e' :: rest => some (bool true, rest)
  | 'f' :: 'a' :: 'l' :: 's' :: 'e' :: rest => some (bool false, rest)
  | rest => readNumber rest

mutual

def readValue : Nat → Text → Option (Json × Text)
  | 0, _ => none
  | fuel + 1, s =>
    match skipSpace s with
    | '"' :: rest => (readChars rest).map fun p => (text p.1, p.2)
    | '[' :: rest =>
      match skipSpace rest with
      | ']' :: rest => some (array [], rest)
      | rest => (readItems fuel rest).map fun p => (array p.1, p.2)
    | '{' :: rest =>
      match skipSpace rest with
      | '}' :: rest => some (object [], rest)
      | rest => (readFields fuel rest).map fun p => (object p.1, p.2)
    | rest => readScalar rest

/-- elements up to the closing bracket -/
def readItems : Nat → Text → Option (List Json × Text)
  | 0, _ => none
  | fuel + 1, s => do
    let (v, rest) ← readValue fuel s
    match skipSpace rest with
    | ',' :: rest => (readItems fuel rest).map fun p => (v :: p.1, p.2)
    | ']' :: rest => some ([v], rest)
    | _ => none

/-- fields up to the closing brace -/
def readFields : Nat → Text → Option (List (Text × Json) × Text)
  | 0, _ => none
  | fuel + 1, s =>
    match skipSpace s with
    | '"' :: rest => do
      let (name, rest) ← readChars rest
      match skipSpace rest with
      | ':' :: rest =>
        let (v, rest) ← readValue fuel rest
        match skipSpace rest with
        | ',' :: rest => (readFields fuel rest).map fun p => ((name, v) :: p.1, p.2)
        | '}' :: rest => some ([(name, v)], rest)
        | _ => none
      | _ => none
    | _ => none

end

/-- the value that a text spells -/
def read? (s : Text) : Option Json := do
  let (v, rest) ← readValue (2 * s.length + 2) s
  if (skipSpace rest).isEmpty then some v else none

end ClassAtlas.Json
