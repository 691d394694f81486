import SenderPolicy.Address
import SenderPolicy.Text

/-!
# Writing addresses

An IPv4 address is written as its four octets. An IPv6 address is written in lower case without
leading zeros, and `::` takes the place of the first longest run of two or more zero groups; an
IPv4-mapped address shows the IPv4 address it stands for.

## Main definitions

* `writeV4`, `writeV6`: the text of a word of one family
* `Address.write`: the text of an address
* `Address.dotted`: the text that stands for the address inside domain names
-/

namespace SenderPolicy.Address

open Text

/-- A number in decimal digits. -/
def decimal (n : Nat) : List Char :=
  Nat.toDigits 10 n

/-- A number in lower-case hexadecimal digits. -/
def hexadecimal (n : Nat) : List Char :=
  Nat.toDigits 16 n

/-- Four decimal octets between dots. -/
def writeV4Chars (word : BitVec 32) : List Char :=
  joined ['.'] ((octets word).map decimal)

/-- The number of zero groups at the start of a list. -/
def leadingZeros (gs : List (BitVec 16)) : Nat :=
  (gs.takeWhile (· = 0)).length

/-- Where the longest run of zero groups starts and how long it is; the first of equal ones. -/
def longestZeros : List (BitVec 16) → Nat × Nat
  | [] => (0, 0)
  | g :: gs =>
    let here := leadingZeros (g :: gs)
    let (start, length) := longestZeros gs
    -- of runs of equal length the first one counts
    if length ≤ here then (0, here) else (start + 1, length)

/-- Groups in hexadecimal digits between colons. -/
def writeGroups (gs : List (BitVec 16)) : List Char :=
  joined [':'] (gs.map fun g => hexadecimal g.toNat)

/-- The groups of a word, the longest run of zeros left out. -/
def writeCompressed (gs : List (BitVec 16)) : List Char :=
  let (start, length) := longestZeros gs
  if 2 ≤ length then writeGroups (gs.take start) ++ [':', ':'] ++ writeGroups (gs.drop (start + length))
  else writeGroups gs

/-- The text of an IPv6 word. -/
def writeV6Chars (word : BitVec 128) : List Char :=
  match mapped? word with
  | some inner => [':', ':', 'f', 'f', 'f', 'f', ':'] ++ writeV4Chars inner
  | none => writeCompressed (groups word)

/-- The text of an IPv4 word. -/
def writeV4 (word : BitVec 32) : String :=
  String.ofList (writeV4Chars word)

/-- The text of an IPv6 word. -/
def writeV6 (word : BitVec 128) : String :=
  String.ofList (writeV6Chars word)

/-- The text of an address. -/
def write : Address → String
  | v4 word => writeV4 word
  | v6 word => writeV6 word

/-- The labels that stand for an address inside a domain name: the octets of an IPv4 address in
decimal, the hexadecimal digits of an IPv6 address one by one. -/
def labels : Address → List (List Char)
  | v4 word => (octets word).map decimal
  | v6 word => (nibbles word).map hexadecimal

/-- The labels of an address between dots. -/
def dotted (a : Address) : String :=
  String.ofList (joined ['.'] a.labels)

/-- The label that names the address family below `arpa`. -/
def familyLabel : Address → String
  | v4 _ => "in-addr"
  | v6 _ => "ip6"

/-- The name below `arpa` whose `PTR` records name the address. -/
def reverseName (a : Address) : String :=
  String.ofList (joined ['.'] a.labels.reverse) ++ "." ++ a.familyLabel ++ ".arpa"

end SenderPolicy.Address
