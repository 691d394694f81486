/-!
# Addresses and networks

A client connects from an IPv4 or an IPv6 address, a word of 32 or of 128 bits. A network is an
address with the number of leading bits that its members share with it.

## Main definitions

* `Address`: a word of either family
* `Address.normal`: the IPv4 address that an IPv4-mapped IPv6 address stands for
* `Network`: an address, kept as written, with a number of leading bits
* `Network.contains`: a member shares the leading bits of the network

## Main results

* `Network.contains_iff`: membership is equality of the leading bits
-/

namespace SenderPolicy

/-- An IPv4 or an IPv6 address. -/
inductive Address where
  | v4 (word : BitVec 32)
  | v6 (word : BitVec 128)
deriving DecidableEq, Repr

namespace Address

/-- The word in front of the 32 bits of an IPv4-mapped address. -/
def mappedMark : BitVec 96 := 0xffff

/-- The IPv4 address mapped into an IPv6 word. -/
def mapped? (word : BitVec 128) : Option (BitVec 32) :=
  if word.extractLsb' 32 96 = mappedMark then some (word.extractLsb' 0 32) else none

/-- An IPv4-mapped IPv6 address stands for the IPv4 address; any other for itself. -/
def normal : Address → Address
  | v4 word => v4 word
  | v6 word =>
    match mapped? word with
    | some inner => v4 inner
    | none => v6 word

theorem normal_normal (a : Address) : a.normal.normal = a.normal := by
  cases a with
  | v4 w => rfl
  | v6 w =>
    cases h : mapped? w with
    | none => simp [normal, h]
    | some inner => simp [normal, h]

/-- The four octets of an IPv4 word, in order. -/
def octets (word : BitVec 32) : List Nat :=
  [24, 16, 8, 0].map fun i => (word.extractLsb' i 8).toNat

/-- The IPv4 word of four octets. -/
def ofOctets (a b c d : BitVec 8) : BitVec 32 :=
  a ++ b ++ c ++ d

/-- The eight groups of an IPv6 word, in order. -/
def groups (word : BitVec 128) : List (BitVec 16) :=
  [112, 96, 80, 64, 48, 32, 16, 0].map fun i => word.extractLsb' i 16

/-- The IPv6 word of a list of groups. -/
def ofGroups (gs : List (BitVec 16)) : BitVec 128 :=
  gs.foldl (fun w g => (w <<< 16) ||| g.setWidth 128) 0

/-- The hexadecimal digits of an IPv6 word, in order. -/
def nibbles (word : BitVec 128) : List Nat :=
  (List.range 32).map fun i => (word.extractLsb' (124 - 4 * i) 4).toNat

end Address

/-- An address, kept as written, and the number of leading bits shared by the network. -/
structure Network (width : Nat) where
  address : BitVec width
  length : Fin (width + 1)
deriving DecidableEq, Repr

namespace Network

variable {width : Nat}

/-- The word whose first `n` bits are set. -/
def mask (width n : Nat) : BitVec width :=
  BitVec.allOnes width <<< (width - n)

/-- The member shares the leading bits of the network. -/
def contains (net : Network width) (member : BitVec width) : Bool :=
  net.address &&& mask width net.length.val == member &&& mask width net.length.val

theorem getElem_mask {n i : Nat} (hi : i < width) :
    (mask width n)[i] = decide (width - n ≤ i) := by
  simp only [mask, BitVec.getElem_shiftLeft, BitVec.getElem_allOnes]
  by_cases h : i < width - n
  · simp only [h, decide_true, Bool.not_true, Bool.false_and, Bool.false_eq, decide_eq_false_iff_not]
    omega
  · simp [h, Nat.not_lt.mp h]

/-- Membership is equality of the leading bits. -/
theorem contains_iff {net : Network width} {member : BitVec width} :
    net.contains member = true ↔
      ∀ i < net.length.val, net.address.getMsbD i = member.getMsbD i := by
  rw [contains, beq_iff_eq, BitVec.eq_of_getElem_eq_iff]
  -- bit `i` from the left is bit `width - 1 - i` from the right
  constructor
  · intro h i hi
    have hl := net.length.isLt
    have := h (width - 1 - i) (by omega)
    rw [BitVec.getElem_and, BitVec.getElem_and, getElem_mask (by omega)] at this
    simp only [show width - net.length.val ≤ width - 1 - i by omega, decide_true,
      Bool.and_true] at this
    simpa [BitVec.getMsbD, show i < width by omega,
      BitVec.getLsbD_eq_getElem (show width - 1 - i < width by omega)] using this
  · intro h i hi
    rw [BitVec.getElem_and, BitVec.getElem_and, getElem_mask hi]
    by_cases hm : width - net.length.val ≤ i
    · have := h (width - 1 - i) (by omega)
      simp only [BitVec.getMsbD, show width - 1 - i < width by omega, decide_true,
        Bool.true_and, show width - 1 - (width - 1 - i) = i by omega,
        BitVec.getLsbD_eq_getElem hi] at this
      simp [this]
    · simp [hm]

end Network

end SenderPolicy
