import SenderPolicy.Text

/-!
# Octets of texts

A text is stored and sent as UTF-8. Octets that are no UTF-8 are read with the replacement
character U+FFFD: one for each longest run of octets that starts a character and is cut short,
and one for each octet that can start none.

## Main definitions

* `encode`: the octets of a text
* `Pending`, `pendingStep`: the automaton that reads octets, and its state inside a character
* `decodeLossy`: the text of any octets
* `escape`, `unescape?`: a text in which every octet outside the unreserved characters is written
  as a percent sign and two hexadecimal digits, and how to read it
-/

namespace SenderPolicy.Text

/-- The octets of a text. -/
def encode (cs : List Char) : List UInt8 :=
  cs.flatMap String.utf8EncodeChar

/-! ## Reading octets

Between two characters any octet may come; inside one, only those of a range. The range of the
second octet depends on the first, which keeps every character at its shortest form. -/

/-- The state inside a character of several octets: its bits so far, how many octets it still
needs, and the range of the next of them. -/
structure Pending where
  bits : Nat
  missing : Nat
  least : Nat
  greatest : Nat
deriving DecidableEq, Repr

/-- The character that stands for octets that are no UTF-8. -/
def replacement : Char := '\ufffd'

/-- What an octet means between two characters: a character of its own, the start of one, or
neither. The ranges keep out overlong forms, surrogates and what lies beyond U+10FFFF. -/
def firstOctet (b : Nat) : List Char × Option Pending :=
  if b < 0x80 then ([Char.ofNat b], none)
  else if 0xC2 ≤ b ∧ b ≤ 0xDF then ([], some ⟨b - 0xC0, 1, 0x80, 0xBF⟩)
  else if b = 0xE0 then ([], some ⟨0, 2, 0xA0, 0xBF⟩)
  else if b = 0xED then ([], some ⟨0xD, 2, 0x80, 0x9F⟩)
  else if 0xE1 ≤ b ∧ b ≤ 0xEF then ([], some ⟨b - 0xE0, 2, 0x80, 0xBF⟩)
  else if b = 0xF0 then ([], some ⟨0, 3, 0x90, 0xBF⟩)
  else if 0xF1 ≤ b ∧ b ≤ 0xF3 then ([], some ⟨b - 0xF0, 3, 0x80, 0xBF⟩)
  else if b = 0xF4 then ([], some ⟨4, 3, 0x80, 0x8F⟩)
  else ([replacement], none)

/-- Reads one octet: the characters it completes, and the state behind it. An octet that does not
continue the character ends it and is read again from between characters. -/
def pendingStep : Option Pending → UInt8 → List Char × Option Pending
  | none, b => firstOctet b.toNat
  | some p, b =>
    if p.least ≤ b.toNat ∧ b.toNat ≤ p.greatest then
      let bits := 64 * p.bits + (b.toNat - 0x80)
      if p.missing = 1 then ([Char.ofNat bits], none)
      else ([], some ⟨bits, p.missing - 1, 0x80, 0xBF⟩)
    else
      -- the character is cut short, and the octet may start another
      let (cs, next) := firstOctet b.toNat
      (replacement :: cs, next)

/-- The characters of octets, read on from a state. -/
def decodeFrom : Option Pending → List UInt8 → List Char
  | none, [] => []
  | some _, [] => [replacement]
  | p, b :: bs =>
    let (cs, next) := pendingStep p b
    cs ++ decodeFrom next bs

/-- The text of any octets, with replacement characters for what is no UTF-8. -/
def decodeLossy (bs : List UInt8) : String :=
  String.ofList (decodeFrom none bs)

/-! ## Percent escapes

An octet is escaped unless it is the code of an unreserved character, so a character beyond ASCII
is escaped octet by octet. -/

/-- The characters that a percent escape leaves as they are. -/
def isUnreserved (c : Char) : Bool :=
  c.isAlphanum || c = '-' || c = '.' || c = '_' || c = '~'

/-- The upper-case hexadecimal digit of a number below 16. -/
def upperHexDigit (n : Nat) : Char :=
  if n < 10 then Char.ofNat ('0'.toNat + n) else Char.ofNat ('A'.toNat + (n - 10))

/-- An octet of an escaped text: itself if it is an unreserved character, else a percent sign and
two hexadecimal digits. -/
def escapeOctet (b : UInt8) : List Char :=
  if isUnreserved (Char.ofNat b.toNat) then [Char.ofNat b.toNat]
  else ['%', upperHexDigit (b.toNat / 16), upperHexDigit (b.toNat % 16)]

/-- A text in which every octet outside the unreserved characters is escaped. -/
def escape (s : String) : String :=
  String.ofList ((encode s.toList).flatMap escapeOctet)

/-- The octets that an escaped text stands for. -/
def unescape? : List Char → Option (List UInt8)
  | [] => some []
  | '%' :: h :: l :: cs =>
    if isHexDigit h && isHexDigit l then
      (unescape? cs).map (UInt8.ofNat (16 * digitValue h + digitValue l) :: ·)
    else none
  | c :: cs =>
    if isUnreserved c then (unescape? cs).map (UInt8.ofNat c.toNat :: ·) else none

end SenderPolicy.Text
