/-
Text in the UTF-8 encoding.

Decoding accepts any bytes: each longest sequence of bytes that starts like a character but does not go on like one is
replaced by U+FFFD, and so is every byte that starts nothing. The decoder takes one byte at a time. While a character
is incomplete it knows how many bytes are missing and in which range the next one has to lie; the range keeps out
overlong forms, surrogates and numbers past U+10FFFF.

`ofUtf8?` accepts only bytes that are the UTF-8 form of a text.
-/
import ClassAtlas.Text.Basic

namespace ClassAtlas.Text

/-- the UTF-8 form of a text -/
def encodeUtf8 (s : Text) : List UInt8 := s.flatMap String.utf8EncodeChar

namespace Utf8

/-- a character of which some bytes are missing -/
structure Incomplete where
  value : Nat
  missing : Nat
  /-- the least value of the next byte -/
  least : Nat := 0x80
  /-- the greatest value of the next byte -/
  greatest : Nat := 0xBF
deriving DecidableEq, Repr

structure Decoder where
  /-- the characters so far, latest first -/
  backward : Text := []
  incomplete : Option Incomplete := none
deriving DecidableEq, Repr

def replacement : Char := Char.ofNat 0xFFFD

namespace Decoder

/-- adds a character -/
def emit (d : Decoder) (c : Char) : Decoder := { backward := c :: d.backward }

/-- a byte at the start of a character -/
def start (d : Decoder) (b : Nat) : Decoder :=
  let await (p : Incomplete) : Decoder := { d with incomplete := some p }
  if b < 0x80 then d.emit (Char.ofNat b)
  else if b < 0xC2 then d.emit replacement
  else if b < 0xE0 then await { value := b - 0xC0, missing := 1 }
  else if b = 0xE0 then await { value := 0, missing := 2, least := 0xA0 }
  else if b = 0xED then await { value := 0xD, missing := 2, greatest := 0x9F }
  else if b < 0xF0 then await { value := b - 0xE0, missing := 2 }
  else if b = 0xF0 then await { value := 0, missing := 3, least := 0x90 }
  else if b < 0xF4 then await { value := b - 0xF0, missing := 3 }
  else if b = 0xF4 then await { value := 4, missing := 3, greatest := 0x8F }
  else d.emit replacement

/-- a byte that goes on with a character -/
def extend (d : Decoder) (p : Incomplete) (b : Nat) : Decoder :=
  let value := p.value * 64 + (b - 0x80)
  if p.missing ≤ 1 then { d with incomplete := none }.emit (Char.ofNat value)
  else { d with incomplete := some { value := value, missing := p.missing - 1 } }

/-- the decoder after one more byte -/
def step (d : Decoder) (byte : UInt8) : Decoder :=
  let b := byte.toNat
  match d.incomplete with
  | none => d.start b
  | some p =>
    if p.least ≤ b ∧ b ≤ p.greatest then d.extend p b
    else ({ d with incomplete := none }.emit replacement).start b

/-- the text, with a replacement for a character that is still incomplete -/
def finish (d : Decoder) : Text :=
  match d.incomplete with
  | none => d.backward.reverse
  | some _ => (replacement :: d.backward).reverse

end Decoder

end Utf8

/-- the text that bytes spell -/
def decodeUtf8 (bytes : List UInt8) : Text := (bytes.foldl Utf8.Decoder.step {}).finish

/-- the text whose UTF-8 form the bytes are -/
def ofUtf8? (bytes : List UInt8) : Option Text := (some (decodeUtf8 bytes)).filter fun s => encodeUtf8 s == bytes

end ClassAtlas.Text
