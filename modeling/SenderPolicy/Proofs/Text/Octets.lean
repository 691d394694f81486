import SenderPolicy.Text.Utf8

/-!
# Octets are read back

The octets of a text are read as that text. Parts that the octets are cut into, each read by itself,
are read as the text only if no cut lies inside a character. For every octet that starts a character
is read as one character at least, and so is an octet that goes on with a character whose start is
missing, so that one cut inside a character is a character too many.

## Main definitions

* `Encoding`: the octets of a code
* `continues`: the octet goes on with a character
* `leads`: the number of octets that start a character

## Main results

* `decodeFrom_encode_append`, `decodeFrom_encode`: the octets of a text are read as that text
* `leads_le_length`, `leads_lt_length`: what is read has no fewer characters than start in the
  octets
* `flatMap_decodeFrom_iff`: which parts are read as the text
-/

namespace SenderPolicy.Text

/-! ## Octets of a character -/

/-- The octet goes on with a character that an earlier one has started. -/
def continues (b : UInt8) : Bool :=
  0x80 ≤ b.toNat && b.toNat ≤ 0xBF

theorem continues_iff {b : UInt8} : continues b = true ↔ 0x80 ≤ b.toNat ∧ b.toNat ≤ 0xBF := by
  simp [continues]

/-- The octets of a code: the first says how many there are, and every other one adds six bits. -/
inductive Encoding : Nat → List UInt8 → Prop
  | one {a : UInt8} (ha : a.toNat < 0x80) : Encoding a.toNat [a]
  | two {a b : UInt8} (ha : 0xC2 ≤ a.toNat ∧ a.toNat ≤ 0xDF) (hb : continues b = true) :
      Encoding (64 * (a.toNat - 0xC0) + (b.toNat - 0x80)) [a, b]
  /-- Neither an overlong form nor a surrogate. -/
  | three {a b c : UInt8} (ha : 0xE0 ≤ a.toNat ∧ a.toNat ≤ 0xEF) (hb : continues b = true)
      (hc : continues c = true) (least : a.toNat = 0xE0 → 0xA0 ≤ b.toNat)
      (greatest : a.toNat = 0xED → b.toNat ≤ 0x9F) :
      Encoding (64 * (64 * (a.toNat - 0xE0) + (b.toNat - 0x80)) + (c.toNat - 0x80)) [a, b, c]
  /-- Neither an overlong form nor beyond the last code. -/
  | four {a b c d : UInt8} (ha : 0xF0 ≤ a.toNat ∧ a.toNat ≤ 0xF4) (hb : continues b = true)
      (hc : continues c = true) (hd : continues d = true)
      (least : a.toNat = 0xF0 → 0x90 ≤ b.toNat) (greatest : a.toNat = 0xF4 → b.toNat ≤ 0x8F) :
      Encoding (64 * (64 * (64 * (a.toNat - 0xF0) + (b.toNat - 0x80)) + (c.toNat - 0x80)) +
        (d.toNat - 0x80)) [a, b, c, d]

/-- A character has the octets of its code. -/
theorem encoding_encodeChar (c : Char) : Encoding c.val.toNat (String.utf8EncodeChar c) := by
  have valid : c.val.toNat < 0xD800 ∨ 0xDFFF < c.val.toNat ∧ c.val.toNat < 0x110000 := c.valid
  unfold String.utf8EncodeChar
  generalize c.val.toNat = v at valid
  dsimp only
  have octet {n : Nat} (h : n < 256) : (UInt8.ofNat n).toNat = n := by
    rw [UInt8.toNat_ofNat', Nat.mod_eq_of_lt h]
  have tail (n : Nat) : (UInt8.ofNat (n % 64 + 128)).toNat = n % 64 + 128 := octet (by omega)
  have continued (n : Nat) : continues (UInt8.ofNat (n % 64 + 128)) = true := by
    rw [continues_iff, tail]
    omega
  -- one case for each number of octets
  split
  · have first := octet (n := v) (by omega)
    have encoded := @Encoding.one (UInt8.ofNat v) (by omega)
    rwa [first] at encoded
  · split
    · have first := octet (n := v / 64 % 32 + 192) (by omega)
      have encoded := Encoding.two (by rw [first]; omega) (continued v)
      rw [first, tail] at encoded
      rwa [show 64 * (v / 64 % 32 + 192 - 0xC0) + (v % 64 + 128 - 0x80) = v by omega] at encoded
    · split
      · have first := octet (n := v / 4096 % 16 + 224) (by omega)
        have encoded := Encoding.three (by rw [first]; omega) (continued (v / 64)) (continued v)
          (by rw [first, tail]; omega) (by rw [first, tail]; omega)
        rw [first, tail, tail] at encoded
        rwa [show 64 * (64 * (v / 4096 % 16 + 224 - 0xE0) + (v / 64 % 64 + 128 - 0x80)) +
          (v % 64 + 128 - 0x80) = v by omega] at encoded
      · have first := octet (n := v / 262144 % 8 + 240) (by omega)
        have encoded := Encoding.four (by rw [first]; omega) (continued (v / 4096))
          (continued (v / 64)) (continued v) (by rw [first, tail]; omega)
          (by rw [first, tail]; omega)
        rw [first, tail, tail, tail] at encoded
        rwa [show 64 * (64 * (64 * (v / 262144 % 8 + 240 - 0xF0) + (v / 4096 % 64 + 128 - 0x80)) +
          (v / 64 % 64 + 128 - 0x80)) + (v % 64 + 128 - 0x80) = v by omega] at encoded

/-- A character starts with an octet that continues none, and every other octet continues it. -/
theorem Encoding.exists_cons {code : Nat} {octets : List UInt8} (h : Encoding code octets) :
    ∃ first later, octets = first :: later ∧ continues first = false ∧
      ∀ b ∈ later, continues b = true := by
  have starts {b : UInt8} (h : b.toNat < 0x80 ∨ 0xBF < b.toNat) : continues b = false := by
    rw [Bool.eq_false_iff, Ne, continues_iff]
    omega
  cases h with
  | one ha => exact ⟨_, [], rfl, starts (.inl ha), nofun⟩
  | two ha hb => exact ⟨_, _, rfl, starts (.inr (by omega)), by simp [hb]⟩
  | three ha hb hc => exact ⟨_, _, rfl, starts (.inr (by omega)), by simp [hb, hc]⟩
  | four ha hb hc hd => exact ⟨_, _, rfl, starts (.inr (by omega)), by simp [hb, hc, hd]⟩

/-! ## Reading octets -/

theorem decodeFrom_first {p : Pending} {b : UInt8} (hp : firstOctet b.toNat = ([], some p))
    (bs : List UInt8) : decodeFrom none (b :: bs) = decodeFrom (some p) bs := by
  simp only [decodeFrom, pendingStep, hp, List.nil_append]

/-- An octet within the range of a character that needs more of them. -/
theorem decodeFrom_next {p : Pending} {b : UInt8} (hb : p.least ≤ b.toNat ∧ b.toNat ≤ p.greatest)
    (hm : p.missing ≠ 1) (bs : List UInt8) : decodeFrom (some p) (b :: bs) =
      decodeFrom (some ⟨64 * p.bits + (b.toNat - 0x80), p.missing - 1, 0x80, 0xBF⟩) bs := by
  simp only [decodeFrom, pendingStep, if_pos hb, if_neg hm, List.nil_append]

/-- An octet within the range of a character that needs no other. -/
theorem decodeFrom_last {p : Pending} {b : UInt8} (hb : p.least ≤ b.toNat ∧ b.toNat ≤ p.greatest)
    (hm : p.missing = 1) (bs : List UInt8) : decodeFrom (some p) (b :: bs) =
      Char.ofNat (64 * p.bits + (b.toNat - 0x80)) :: decodeFrom none bs := by
  simp only [decodeFrom, pendingStep, if_pos hb, if_pos hm, List.cons_append, List.nil_append]

theorem firstOctet_two {a : Nat} (ha : 0xC2 ≤ a ∧ a ≤ 0xDF) :
    firstOctet a = ([], some ⟨a - 0xC0, 1, 0x80, 0xBF⟩) := by
  rw [firstOctet, if_neg (by omega), if_pos ha]

theorem firstOctet_three {a b : Nat} (ha : 0xE0 ≤ a ∧ a ≤ 0xEF) (hb : 0x80 ≤ b ∧ b ≤ 0xBF)
    (least : a = 0xE0 → 0xA0 ≤ b) (greatest : a = 0xED → b ≤ 0x9F) :
    ∃ low high, firstOctet a = ([], some ⟨a - 0xE0, 2, low, high⟩) ∧ low ≤ b ∧ b ≤ high := by
  rw [firstOctet, if_neg (by omega), if_neg (by omega)]
  split
  · rename_i he
    subst he
    exact ⟨_, _, rfl, least rfl, hb.2⟩
  · split
    · rename_i he
      subst he
      exact ⟨_, _, rfl, hb.1, greatest rfl⟩
    · rw [if_pos (by omega)]
      exact ⟨_, _, rfl, hb⟩

theorem firstOctet_four {a b : Nat} (ha : 0xF0 ≤ a ∧ a ≤ 0xF4) (hb : 0x80 ≤ b ∧ b ≤ 0xBF)
    (least : a = 0xF0 → 0x90 ≤ b) (greatest : a = 0xF4 → b ≤ 0x8F) :
    ∃ low high, firstOctet a = ([], some ⟨a - 0xF0, 3, low, high⟩) ∧ low ≤ b ∧ b ≤ high := by
  rw [firstOctet, if_neg (by omega), if_neg (by omega), if_neg (by omega), if_neg (by omega),
    if_neg (by omega)]
  split
  · rename_i he
    subst he
    exact ⟨_, _, rfl, least rfl, hb.2⟩
  · split
    · exact ⟨_, _, rfl, hb⟩
    · obtain rfl : a = 0xF4 := by omega
      exact ⟨_, _, rfl, hb.1, greatest rfl⟩

/-- A character is read from the octets of its code, whatever stands behind them. -/
theorem Encoding.decodeFrom_append {code : Nat} {octets : List UInt8} (h : Encoding code octets)
    (bs : List UInt8) : decodeFrom none (octets ++ bs) = Char.ofNat code :: decodeFrom none bs := by
  cases h with
  | one ha => simp [decodeFrom, pendingStep, firstOctet, ha]
  | two ha hb =>
    rw [continues_iff] at hb
    simp only [List.cons_append, List.nil_append]
    rw [decodeFrom_first (firstOctet_two ha), decodeFrom_last hb rfl]
  | three ha hb hc least greatest =>
    rw [continues_iff] at hb hc
    obtain ⟨low, high, first, second⟩ := firstOctet_three ha hb least greatest
    simp only [List.cons_append, List.nil_append]
    rw [decodeFrom_first first, decodeFrom_next second (by simp), decodeFrom_last hc rfl]
  | four ha hb hc hd least greatest =>
    rw [continues_iff] at hb hc hd
    obtain ⟨low, high, first, second⟩ := firstOctet_four ha hb least greatest
    simp only [List.cons_append, List.nil_append]
    rw [decodeFrom_first first, decodeFrom_next second (by simp), decodeFrom_next hc (by simp),
      decodeFrom_last hd rfl]

theorem encode_cons (c : Char) (cs : List Char) :
    encode (c :: cs) = String.utf8EncodeChar c ++ encode cs :=
  List.flatMap_cons

/-- The octets of a text are read as that text, whatever stands behind them. -/
theorem decodeFrom_encode_append (cs : List Char) (bs : List UInt8) :
    decodeFrom none (encode cs ++ bs) = cs ++ decodeFrom none bs := by
  induction cs with
  | nil => rfl
  | cons c cs ih =>
    rw [encode_cons, List.append_assoc, (encoding_encodeChar c).decodeFrom_append, ih,
      List.cons_append]
    exact congrArg (· :: _) (Char.ofNat_toNat c)

/-- The octets of a text are read as that text. -/
theorem decodeFrom_encode (cs : List Char) : decodeFrom none (encode cs) = cs := by
  have read := decodeFrom_encode_append cs []
  rwa [List.append_nil, decodeFrom, List.append_nil] at read

theorem encode_append (cs ds : List Char) : encode (cs ++ ds) = encode cs ++ encode ds :=
  List.flatMap_append

/-! ## Parts of the octets of a text -/

/-- The number of octets that start a character. -/
def leads (bs : List UInt8) : Nat :=
  bs.countP fun b => !continues b

theorem leads_append (bs bs' : List UInt8) : leads (bs ++ bs') = leads bs + leads bs' :=
  List.countP_append

theorem leads_cons_of_continues {b : UInt8} (h : continues b = true) (bs : List UInt8) :
    leads (b :: bs) = leads bs :=
  List.countP_cons_of_neg (by simp [h])

/-- A text has as many characters as octets that start one. -/
theorem leads_encode (cs : List Char) : leads (encode cs) = cs.length := by
  induction cs with
  | nil => rfl
  | cons c cs ih =>
    obtain ⟨first, later, hc, hf, hl⟩ := (encoding_encodeChar c).exists_cons
    have rest : leads later = 0 := List.countP_eq_zero.mpr (by simpa using hl)
    have one : leads (first :: later) = leads later + 1 :=
      List.countP_cons_of_pos (by simpa using hf)
    rw [encode_cons, leads_append, hc, one, rest, ih, List.length_cons, Nat.add_comm]

/-- The state is inside a character, and no octet that starts another is within its range. -/
def Pending.IsTail (p : Pending) : Prop :=
  0x80 ≤ p.least ∧ p.greatest ≤ 0xBF

/-- An octet between characters is read at once, or is inside one. -/
theorem firstOctet_cases (b : Nat) : (∃ c, firstOctet b = ([c], none)) ∨
    ∃ p : Pending, firstOctet b = ([], some p) ∧ p.IsTail := by
  unfold firstOctet
  repeat' split
  all_goals first | exact .inl ⟨_, rfl⟩ | exact .inr ⟨_, rfl, by simp [Pending.IsTail]⟩

theorem firstOctet_of_continues {b : UInt8} (h : continues b = true) :
    firstOctet b.toNat = ([replacement], none) := by
  rw [continues_iff] at h
  unfold firstOctet
  repeat rw [if_neg (by omega)]

/-- What is read has a character for every octet that starts one, and one for the character that
reading began in. -/
theorem leads_le_length (bs : List UInt8) :
    leads bs ≤ (decodeFrom none bs).length ∧
      ∀ p : Pending, p.IsTail → leads bs + 1 ≤ (decodeFrom (some p) bs).length := by
  induction bs with
  | nil => exact ⟨Nat.le_refl _, fun p _ => Nat.le_refl _⟩
  | cons b bs ih =>
    have counted : leads (b :: bs) ≤ leads bs + 1 := by
      rw [leads, List.countP_cons, leads]
      split <;> omega
    -- between characters the octet is read, or the next character starts with it
    have between : leads bs + 1 ≤ (decodeFrom none (b :: bs)).length := by
      rcases firstOctet_cases b.toNat with ⟨c, hc⟩ | ⟨p, hp, tail⟩
      · simp only [decodeFrom, pendingStep, hc, List.singleton_append, List.length_cons]
        exact Nat.succ_le_succ ih.1
      · rw [decodeFrom_first hp]
        exact ih.2 p tail
    refine ⟨Nat.le_trans counted between, fun p tail => ?_⟩
    by_cases hb : p.least ≤ b.toNat ∧ b.toNat ≤ p.greatest
    · have hc : continues b = true :=
        continues_iff.mpr ⟨Nat.le_trans tail.1 hb.1, Nat.le_trans hb.2 tail.2⟩
      rw [leads_cons_of_continues hc]
      by_cases hm : p.missing = 1
      · rw [decodeFrom_last hb hm, List.length_cons]
        exact Nat.succ_le_succ ih.1
      · rw [decodeFrom_next hb hm]
        exact ih.2 _ ⟨Nat.le_refl _, Nat.le_refl _⟩
    · -- the character is cut short, and the octet is read as one between characters
      have cut : decodeFrom (some p) (b :: bs) = replacement :: decodeFrom none (b :: bs) := by
        simp only [decodeFrom, pendingStep, if_neg hb, List.cons_append]
      rw [cut, List.length_cons]
      omega

/-- What begins inside a character is read with a character too many. -/
theorem leads_lt_length {b : UInt8} (h : continues b = true) (bs : List UInt8) :
    leads (b :: bs) < (decodeFrom none (b :: bs)).length := by
  simp only [decodeFrom, pendingStep, firstOctet_of_continues h, List.singleton_append,
    List.length_cons, leads_cons_of_continues h]
  exact Nat.lt_succ_of_le (leads_le_length bs).1

/-- The octets begin with a character, if there are any. -/
def IsAligned (bs : List UInt8) : Prop :=
  ∀ b ∈ bs.head?, continues b = false

theorem leads_flatten_le (parts : List (List UInt8)) :
    leads parts.flatten ≤ (parts.flatMap (decodeFrom none)).length := by
  induction parts with
  | nil => exact Nat.le_refl _
  | cons part parts ih =>
    rw [List.flatten_cons, leads_append, List.flatMap_cons, List.length_append]
    exact Nat.add_le_add (leads_le_length part).1 ih

/-- Parts that are read as no more characters than start in them are cut in front of characters. -/
theorem isAligned_of_length_le {parts : List (List UInt8)}
    (h : (parts.flatMap (decodeFrom none)).length ≤ leads parts.flatten) :
    ∀ part ∈ parts, IsAligned part := by
  induction parts with
  | nil => exact nofun
  | cons part parts ih =>
    rw [List.flatten_cons, leads_append, List.flatMap_cons, List.length_append] at h
    have first := (leads_le_length part).1
    have later := leads_flatten_le parts
    refine List.forall_mem_cons.mpr ⟨fun b hb => ?_, ih (by omega)⟩
    obtain ⟨rest, rfl⟩ := List.head?_eq_some_iff.mp hb
    rw [Bool.eq_false_iff]
    intro hc
    have more := leads_lt_length hc rest
    omega

theorem isAligned_flatten {parts : List (List UInt8)} (h : ∀ part ∈ parts, IsAligned part) :
    IsAligned parts.flatten := by
  induction parts with
  | nil => exact nofun
  | cons part parts ih =>
    rw [List.forall_mem_cons] at h
    cases part with
    | nil => exact ih h.2
    | cons b part => exact h.1

/-- Octets of a text that are cut in front of a character are the octets of two texts. -/
theorem exists_encode_of_isAligned {part rest : List UInt8} {cs : List Char}
    (h : part ++ rest = encode cs) (hs : IsAligned rest) :
    ∃ front back, part = encode front ∧ rest = encode back := by
  induction cs generalizing part with
  | nil =>
    obtain ⟨rfl, rfl⟩ := List.append_eq_nil_iff.mp h
    exact ⟨[], [], rfl, rfl⟩
  | cons c cs ih =>
    rw [encode_cons] at h
    rcases List.append_eq_append_iff.mp h with ⟨between, hc, hr⟩ | ⟨between, rfl, hr⟩
    · -- the cut is within the octets of the first character, which only its ends allow
      cases between with
      | nil =>
        rw [List.append_nil] at hc
        exact ⟨[c], cs, by rw [← hc, encode_cons]; exact (List.append_nil _).symm, hr⟩
      | cons b between =>
        cases part with
        | nil => exact ⟨[], c :: cs, rfl, by rw [encode_cons]; exact h⟩
        | cons first part =>
          obtain ⟨first', later, he, -, hl⟩ := (encoding_encodeChar c).exists_cons
          rw [he] at hc
          have inside := hl b (by simp [(List.cons.inj hc).2])
          rw [hs b (by simp [hr])] at inside
          cases inside
    · obtain ⟨front, back, rfl, hb⟩ := ih hr.symm
      exact ⟨c :: front, back, (encode_cons c front).symm, hb⟩

/-- Octets of a text that are cut in front of characters only are the octets of texts. -/
theorem exists_encode_of_flatten {parts : List (List UInt8)} {cs : List Char}
    (h : parts.flatten = encode cs) (begun : ∀ part ∈ parts, IsAligned part) :
    ∀ part ∈ parts, ∃ ds, part = encode ds := by
  induction parts generalizing cs with
  | nil => exact nofun
  | cons part parts ih =>
    rw [List.forall_mem_cons] at begun
    obtain ⟨front, back, hp, hr⟩ := exists_encode_of_isAligned h (isAligned_flatten begun.2)
    exact List.forall_mem_cons.mpr ⟨⟨front, hp⟩, ih hr begun.2⟩

theorem encode_flatMap_decodeFrom {parts : List (List UInt8)}
    (whole : ∀ part ∈ parts, ∃ ds, part = encode ds) :
    encode (parts.flatMap (decodeFrom none)) = parts.flatten := by
  induction parts with
  | nil => rfl
  | cons part parts ih =>
    rw [List.forall_mem_cons] at whole
    obtain ⟨⟨ds, rfl⟩, whole⟩ := whole
    rw [List.flatMap_cons, encode_append, decodeFrom_encode, ih whole, List.flatten_cons]

/-- Parts of the octets of a text, each read by itself, are read as the text if none of them is cut
inside a character, and only then. -/
theorem flatMap_decodeFrom_iff {parts : List (List UInt8)} {cs : List Char}
    (h : parts.flatten = encode cs) :
    parts.flatMap (decodeFrom none) = cs ↔ ∀ part ∈ parts, ∃ ds, part = encode ds := by
  constructor
  · rintro rfl
    have few : (parts.flatMap (decodeFrom none)).length ≤ leads parts.flatten :=
      Nat.le_of_eq (by rw [h, leads_encode])
    exact exists_encode_of_flatten h (isAligned_of_length_le few)
  · intro whole
    rw [← decodeFrom_encode (parts.flatMap (decodeFrom none)), encode_flatMap_decodeFrom whole, h,
      decodeFrom_encode]

end SenderPolicy.Text
