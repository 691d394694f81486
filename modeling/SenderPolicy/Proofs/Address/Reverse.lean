import SenderPolicy.Domain
import SenderPolicy.Proofs.Address.Literals

/-!
# Reverse names

The name below `arpa` holds the labels of an address from the last to the first, the octets of an
IPv4 address in decimal and the hexadecimal digits of an IPv6 address one by one. No label has a
dot, so the labels are found again between the dots; and the labels say what the address is, because
every octet and every digit is written in one way, and there are more of them in one family than in
the other.

## Main results

* `Address.pieces_dotted`, `Address.reverseName_eq_dotted`: between the dots the labels are found
  again, and the reverse name is made up of them
* `Address.labels_inj`: addresses have their labels to themselves
* `Address.reverseName_inj`: addresses have their reverse names to themselves
* `Address.octets_reverseName_le`: reverse names fit into lookups
-/

namespace SenderPolicy.Address

open Text

/-! ## Labels -/

theorem ne_dot_of_isHexDigit {c : Char} (h : isHexDigit c = true) : c ≠ '.' := by
  rintro rfl
  cases h

/-- Labels are made of digits. -/
theorem isHexDigit_of_mem_labels {a : Address} {label : List Char} (h : label ∈ a.labels) :
    ∀ c ∈ label, isHexDigit c = true := by
  intro c hc
  cases a with
  | v4 word =>
    obtain ⟨n, -, rfl⟩ := List.mem_map.mp h
    simp [isHexDigit, isDigit_of_mem_decimal hc]
  | v6 word =>
    obtain ⟨n, -, rfl⟩ := List.mem_map.mp h
    exact isHexDigit_of_mem_hexadecimal hc

theorem dot_not_mem_labels {a : Address} {label : List Char} (h : label ∈ a.labels) :
    '.' ∉ label :=
  fun dot => ne_dot_of_isHexDigit (isHexDigit_of_mem_labels h '.' dot) rfl

theorem labels_ne_nil (a : Address) : a.labels ≠ [] := by
  cases a <;> exact List.cons_ne_nil _ _

/-- Between the dots the labels of an address are found again. -/
theorem pieces_dotted (a : Address) : pieces (· = '.') a.dotted.toList = a.labels := by
  rw [dotted, String.toList_ofList]
  exact pieces_joined a.labels_ne_nil fun label => dot_not_mem_labels

/-! ## Addresses of labels -/

theorem decimal_inj {n m : Nat} (h : decimal n = decimal m) : n = m := by
  have values := congrArg (digitsValue 10) h
  rwa [decimal, decimal, digitsValue_toDigits (by decide) (by decide),
    digitsValue_toDigits (by decide) (by decide)] at values

theorem hexadecimal_inj {n m : Nat} (h : hexadecimal n = hexadecimal m) : n = m := by
  have values := congrArg (digitsValue 16) h
  rwa [hexadecimal, hexadecimal, digitsValue_toDigits (by decide) (by decide),
    digitsValue_toDigits (by decide) (by decide)] at values

/-- An IPv4 word is determined by its octets. -/
theorem octets_inj {word word' : BitVec 32} (h : Address.octets word = Address.octets word') :
    word = word' := by
  simp only [Address.octets, List.map_cons, List.map_nil, List.cons.injEq, and_true,
    BitVec.toNat_inj] at h
  rw [← ofOctets_extract word, ← ofOctets_extract word', h.1, h.2.1, h.2.2.1, h.2.2.2]

/-- An IPv6 word is determined by its hexadecimal digits. -/
theorem nibbles_inj {word word' : BitVec 128} (h : nibbles word = nibbles word') :
    word = word' := by
  rw [nibbles, nibbles, List.map_inj_left] at h
  refine BitVec.eq_of_getLsbD_eq fun i hi => ?_
  -- the bit lies in the digit that starts at the last multiple of four up to it
  have digit := BitVec.eq_of_toNat_eq (h (31 - i / 4) (List.mem_range.mpr (by omega)))
  have bit := congrArg (fun w => w.getLsbD (i % 4)) digit
  simpa [show 124 - 4 * (31 - i / 4) + i % 4 = i by omega, Nat.mod_lt] using bit

/-- Addresses have their labels to themselves. -/
theorem labels_inj {a b : Address} (h : a.labels = b.labels) : a = b := by
  have count := congrArg List.length h
  cases a with
  | v4 word =>
    cases b with
    | v4 word' =>
      exact congrArg v4 (octets_inj ((List.map_inj_right fun _ _ => decimal_inj).mp h))
    | v6 word' => simp [labels, nibbles, Address.octets] at count
  | v6 word =>
    cases b with
    | v4 word' => simp [labels, nibbles, Address.octets] at count
    | v6 word' =>
      exact congrArg v6 (nibbles_inj ((List.map_inj_right fun _ _ => hexadecimal_inj).mp h))

/-! ## Reverse names -/

theorem dot_not_mem_familyLabel (a : Address) : '.' ∉ a.familyLabel.toList := by
  cases a with
  | v4 word => exact (by decide : '.' ∉ "in-addr".toList)
  | v6 word => exact (by decide : '.' ∉ "ip6".toList)

/-- The labels of a reverse name. -/
theorem toList_reverseName (a : Address) : a.reverseName.toList =
    joined ['.'] (a.labels.reverse ++ [a.familyLabel.toList, "arpa".toList]) := by
  rw [joined_append (by simpa using a.labels_ne_nil) (List.cons_ne_nil _ _), reverseName]
  simp [joined]

/-- A reverse name is made up of what stands between the dots of an address inside domain names. -/
theorem reverseName_eq_dotted (a : Address) : a.reverseName =
    String.ofList (joined ['.'] (pieces (· = '.') a.dotted.toList).reverse) ++ "." ++
      a.familyLabel ++ ".arpa" := by
  rw [pieces_dotted, reverseName]

theorem pieces_reverseName (a : Address) : pieces (· = '.') a.reverseName.toList =
    a.labels.reverse ++ [a.familyLabel.toList, "arpa".toList] := by
  rw [toList_reverseName]
  refine pieces_joined (by simp) fun label h => ?_
  rw [List.mem_append, List.mem_reverse, List.mem_cons, List.mem_singleton] at h
  rcases h with h | rfl | rfl
  · exact dot_not_mem_labels h
  · exact a.dot_not_mem_familyLabel
  · decide

/-- Addresses have their reverse names to themselves. -/
theorem reverseName_inj {a b : Address} : a.reverseName = b.reverseName ↔ a = b := by
  constructor
  · intro h
    have same := congrArg (fun s => pieces (· = '.') s.toList) h
    simp only [pieces_reverseName] at same
    exact labels_inj (List.reverse_inj.mp (List.append_inj_left' same rfl))
  · rintro rfl
    rfl

/-! ## Lengths of reverse names -/

/-- No character has more than four octets. -/
theorem octets_le (cs : List Char) : Text.octets cs ≤ 4 * cs.length := by
  induction cs with
  | nil => exact Nat.le_refl 0
  | cons c cs ih =>
    have size := c.utf8Size_le_four
    rw [Text.octets, List.length_cons]
    omega

theorem octets_joined_le {ls : List (List Char)} {n : Nat} (h : ∀ l ∈ ls, Text.octets l ≤ n) :
    Text.octets (joined ['.'] ls) ≤ (n + 1) * ls.length := by
  induction ls with
  | nil => exact Nat.le_refl 0
  | cons l ls ih =>
    rw [List.forall_mem_cons] at h
    have behind := ih h.2
    rw [List.length_cons, Nat.mul_succ]
    cases ls with
    | nil =>
      rw [joined]
      omega
    | cons m ls =>
      rw [Domain.octets_joined_cons]
      omega

theorem length_decimal_of_mem_octets {word : BitVec 32} {n : Nat} (h : n ∈ Address.octets word) :
    (decimal n).length ≤ 3 := by
  obtain ⟨i, -, rfl⟩ := List.mem_map.mp h
  exact length_decimal_le

theorem length_hexadecimal_of_mem_nibbles {word : BitVec 128} {n : Nat} (h : n ∈ nibbles word) :
    (hexadecimal n).length ≤ 1 := by
  obtain ⟨i, -, rfl⟩ := List.mem_map.mp h
  exact (Nat.length_toDigits_le_iff (by decide) (by decide)).mpr (BitVec.isLt _)

/-- A reverse name fits into a lookup. -/
theorem octets_reverseName_le (a : Address) :
    Text.octets a.reverseName.toList ≤ Domain.maxOctets := by
  -- what the names of both families have in common is that they have few labels, and short ones
  have fits (n : Nat) (short : ∀ l ∈ a.labels, Text.octets l ≤ n)
      (family : Text.octets a.familyLabel.toList ≤ n) (arpa : Text.octets "arpa".toList ≤ n) :
      Text.octets a.reverseName.toList ≤ (n + 1) * (a.labels.length + 2) := by
    rw [toList_reverseName]
    refine Nat.le_trans (octets_joined_le (n := n) fun l hl => ?_) (by simp)
    rw [List.mem_append, List.mem_reverse, List.mem_cons, List.mem_singleton] at hl
    rcases hl with hl | rfl | rfl
    · exact short l hl
    · exact family
    · exact arpa
  cases a with
  | v4 word =>
    refine Nat.le_trans (fits 12 (fun l hl => ?_) (by decide : Text.octets "in-addr".toList ≤ 12)
      (by decide)) (by simp [labels, Address.octets, Domain.maxOctets])
    obtain ⟨n, hn, rfl⟩ := List.mem_map.mp hl
    have few := length_decimal_of_mem_octets hn
    have size := octets_le (decimal n)
    omega
  | v6 word =>
    refine Nat.le_trans (fits 4 (fun l hl => ?_) (by decide : Text.octets "ip6".toList ≤ 4)
      (by decide)) (by simp [labels, nibbles, Domain.maxOctets])
    obtain ⟨n, hn, rfl⟩ := List.mem_map.mp hl
    have few := length_hexadecimal_of_mem_nibbles hn
    have size := octets_le (hexadecimal n)
    omega

end SenderPolicy.Address
