import SenderPolicy.Address
import SenderPolicy.Text

/-!
# Reading address literals

The strict literals: an IPv4 address is four decimal octets without leading zeros; an IPv6
address is eight groups of one to four hexadecimal digits, of which one run of zeros may be
written `::` and the last two may be written as an IPv4 address. White space, zone names and
anything before or after the literal are refused.

## Main definitions

* `readV4`, `readV6`: the word of a literal of one family
* `Address.read`: an address of either family
-/

namespace SenderPolicy.Address

open Text

/-- A decimal octet: at most three digits, no leading zero, at most 255. -/
def readOctet (cs : List Char) : Option (BitVec 8) :=
  -- a zero in front is refused, because some readers take it for an octal mark
  if cs.length ≤ 3 ∧ (cs.head? = some '0' → cs.length = 1) then
    match readDigits cs with
    | some n => if n ≤ 255 then some (BitVec.ofNat 8 n) else none
    | none => none
  else none

/-- Four decimal octets between dots. -/
def readV4Chars (cs : List Char) : Option (BitVec 32) :=
  match pieces (· = '.') cs with
  | [a, b, c, d] => do
    return ofOctets (← readOctet a) (← readOctet b) (← readOctet c) (← readOctet d)
  | _ => none

/-- One to four hexadecimal digits. -/
def readGroup (cs : List Char) : Option (BitVec 16) :=
  if cs ≠ [] ∧ cs.length ≤ 4 ∧ cs.all isHexDigit then some (BitVec.ofNat 16 (digitsValue 16 cs))
  else none

/-- The last piece of an IPv6 literal: a group, or an IPv4 address in place of two groups. -/
def readLastGroups (cs : List Char) : Option (List (BitVec 16)) :=
  match readGroup cs with
  | some g => some [g]
  | none => (readV4Chars cs).map fun w => [w.extractLsb' 16 16, w.extractLsb' 0 16]

/-- Groups of which the last may be written as an IPv4 address. -/
def readGroups : List (List Char) → Option (List (BitVec 16))
  | [] => some []
  | [p] => readLastGroups p
  | p :: q :: ps => do
    return (← readGroup p) :: (← readGroups (q :: ps))

/-- The text before the first `::` and the text after it. -/
def cutGap : List Char → Option (List Char × List Char)
  | [] => none
  | ':' :: ':' :: cs => some ([], cs)
  | c :: cs => (cutGap cs).map fun (before, after) => (c :: before, after)

/-- The pieces between the colons of one side of a `::`, of which an empty side has none. -/
def sidePieces (cs : List Char) : List (List Char) :=
  if cs = [] then [] else pieces (· = ':') cs

/-- The groups of an IPv6 literal: eight, or fewer around one `::`, in front of which no IPv4
address stands. -/
def readV6Groups (cs : List Char) : Option (List (BitVec 16)) :=
  match cutGap cs with
  | none => do
    let gs ← readGroups (pieces (· = ':') cs)
    if gs.length = 8 then some gs else none
  | some (before, after) => do
    let front ← (sidePieces before).mapM readGroup
    let back ← readGroups (sidePieces after)
    -- a gap stands for one group at least
    if front.length + back.length ≤ 7 then
      some (front ++ List.replicate (8 - front.length - back.length) 0 ++ back)
    else none

/-- The word of an IPv4 literal. -/
def readV4 (s : String) : Option (BitVec 32) :=
  readV4Chars s.toList

/-- The word of an IPv6 literal. -/
def readV6 (s : String) : Option (BitVec 128) :=
  (readV6Groups s.toList).map ofGroups

/-- The address of a literal of either family. -/
def read (s : String) : Option Address :=
  match readV4 s with
  | some w => some (v4 w)
  | none => (readV6 s).map v6

end SenderPolicy.Address
