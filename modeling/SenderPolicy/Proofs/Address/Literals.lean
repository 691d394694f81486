import SenderPolicy.Address.Printer
import SenderPolicy.Address.Reader

/-!
# Addresses are read as they are written

The text of an address is a literal of its word. An IPv4 address is cut at its dots into the octets
it was written from. In an IPv6 address the first two colons in a row stand where the zeros were left
out, because no group is written as nothing; on both sides the groups are cut at the colons.

## Main results

* `digitsValue_toDigits`: digits denote the number that they were written from
* `cutGap_writeGroups`: groups are written without two colons in a row
* `readV4_writeV4`, `readV6_writeV6`: an address is read as it is written
-/

namespace SenderPolicy.Address

open Text

/-! ## Digits -/

theorem digitValue_digitChar : ∀ d < 16, digitValue d.digitChar = d := by
  decide

theorem isHexDigit_digitChar : ∀ d < 16, isHexDigit d.digitChar = true := by
  decide

theorem digitsValue_concat (base : Nat) (cs : List Char) (c : Char) :
    digitsValue base (cs ++ [c]) = base * digitsValue base cs + digitValue c := by
  simp [digitsValue]

/-- Digits denote the number that they were written from. -/
theorem digitsValue_toDigits {base : Nat} (hb : 1 < base) (hs : base ≤ 16) (n : Nat) :
    digitsValue base (Nat.toDigits base n) = n := by
  induction n using Nat.base_induction base hb with
  | single d hd =>
    rw [Nat.toDigits_of_lt_base hd, ← List.nil_append [_], digitsValue_concat,
      digitValue_digitChar d (by omega)]
    exact Nat.zero_add d
  | digit n d hd hn ih =>
    rw [← Nat.toDigits_append_toDigits hb hn hd, Nat.toDigits_of_lt_base hd, digitsValue_concat, ih,
      digitValue_digitChar d (by omega)]

theorem isDigit_of_mem_decimal {n : Nat} {c : Char} (h : c ∈ decimal n) : c.isDigit = true :=
  Nat.isDigit_of_mem_toDigits (by decide) (by decide) h

theorem isHexDigit_of_mem_hexadecimal {n : Nat} {c : Char} (h : c ∈ hexadecimal n) :
    isHexDigit c = true := by
  unfold hexadecimal at h
  induction n using Nat.base_induction 16 (by decide) with
  | single d hd =>
    rw [Nat.toDigits_of_lt_base hd, List.mem_singleton] at h
    exact h ▸ isHexDigit_digitChar d hd
  | digit n d hd hn ih =>
    rw [← Nat.toDigits_append_toDigits (by decide) hn hd, Nat.toDigits_of_lt_base hd,
      List.mem_append, List.mem_singleton] at h
    rcases h with h | rfl
    · exact ih h
    · exact isHexDigit_digitChar d hd

/-- Only zero is written with a zero in front. -/
theorem head_decimal {n : Nat} (h : 0 < n) : (decimal n).head? ≠ some '0' := by
  unfold decimal
  induction n using Nat.base_induction 10 (by decide) with
  | single d hd =>
    rw [Nat.toDigits_of_lt_base hd, List.head?_cons, Ne, Option.some.injEq, Nat.digitChar_eq_zero]
    omega
  | digit n d hd hn ih =>
    rw [← Nat.toDigits_append_toDigits (by decide) hn hd,
      List.head?_append, Option.or_of_isSome (by simp [List.isSome_head?])]
    exact ih hn

/-- Digits are a number again. -/
theorem readDigits_decimal (n : Nat) : readDigits (decimal n) = some n := by
  unfold readDigits
  rw [if_pos ⟨Nat.toDigits_ne_nil, List.all_eq_true.mpr fun c => isDigit_of_mem_decimal⟩]
  exact congrArg some (digitsValue_toDigits (by decide) (by decide) n)

/-! ## IPv4 addresses -/

theorem length_decimal_le {octet : BitVec 8} : (decimal octet.toNat).length ≤ 3 :=
  (Nat.length_toDigits_le_iff (by decide) (by decide)).mpr (Nat.lt_trans octet.isLt (by decide))

theorem readOctet_decimal (octet : BitVec 8) : readOctet (decimal octet.toNat) = some octet := by
  have unpadded : (decimal octet.toNat).head? = some '0' → (decimal octet.toNat).length = 1 := by
    intro h
    rw [Nat.eq_zero_of_not_pos fun hp => head_decimal hp h]
    rfl
  have bound : octet.toNat ≤ 255 := Nat.le_of_lt_succ octet.isLt
  rw [readOctet, if_pos ⟨length_decimal_le, unpadded⟩, readDigits_decimal]
  simp [bound]

/-- An IPv4 word is made up of its octets. -/
theorem ofOctets_extract (word : BitVec 32) :
    ofOctets (word.extractLsb' 24 8) (word.extractLsb' 16 8) (word.extractLsb' 8 8)
      (word.extractLsb' 0 8) = word := by
  unfold ofOctets
  ext i hi
  simp only [BitVec.getElem_append, BitVec.getElem_extractLsb']
  rw [← BitVec.getLsbD_eq_getElem hi]
  -- the bit lies in the first octet from the right that reaches up to it
  split
  · simp
  · split
    · congr 1
      omega
    · split <;> congr 1 <;> omega

theorem readV4Chars_writeV4Chars (word : BitVec 32) :
    readV4Chars (writeV4Chars word) = some word := by
  have undotted (n : Nat) : '.' ∉ decimal n := fun h =>
    absurd (isDigit_of_mem_decimal h) (by decide)
  have cut : pieces (· = '.') (writeV4Chars word) = (octets word).map decimal :=
    pieces_joined (by simp [octets]) (by simp [undotted])
  rw [readV4Chars, cut]
  simp only [octets, List.map_cons, List.map_nil, readOctet_decimal]
  exact congrArg some (ofOctets_extract word)

/-- The text of an IPv4 word is read as that word. -/
theorem readV4_writeV4 (word : BitVec 32) : readV4 (writeV4 word) = some word := by
  rw [readV4, writeV4, String.toList_ofList, readV4Chars_writeV4Chars]

theorem of_mem_writeV4Chars {word : BitVec 32} {c : Char} (h : c ∈ writeV4Chars word) :
    c.isDigit = true ∨ c = '.' := by
  rcases mem_joined h with h | ⟨p, hp, hc⟩
  · exact Or.inr (List.mem_singleton.mp h)
  · obtain ⟨n, -, rfl⟩ := List.mem_map.mp hp
    exact Or.inl (isDigit_of_mem_decimal hc)

/-! ## Groups -/

theorem readGroup_hexadecimal (g : BitVec 16) : readGroup (hexadecimal g.toNat) = some g := by
  have short : (hexadecimal g.toNat).length ≤ 4 :=
    (Nat.length_toDigits_le_iff (by decide) (by decide)).mpr g.isLt
  rw [readGroup, if_pos ⟨Nat.toDigits_ne_nil, short,
    List.all_eq_true.mpr fun c => isHexDigit_of_mem_hexadecimal⟩, hexadecimal,
    digitsValue_toDigits (by decide) (by decide), BitVec.ofNat_toNat, BitVec.setWidth_eq]

theorem colon_not_mem_hexadecimal (n : Nat) : ':' ∉ hexadecimal n := fun h =>
  absurd (isHexDigit_of_mem_hexadecimal h) (by decide)

theorem readGroups_hexadecimal (gs : List (BitVec 16)) :
    readGroups (gs.map fun g => hexadecimal g.toNat) = some gs := by
  induction gs with
  | nil => rfl
  | cons g gs ih =>
    cases gs with
    | nil => simp [readGroups, readLastGroups, readGroup_hexadecimal]
    | cons g' gs =>
      simp only [List.map_cons] at ih ⊢
      rw [readGroups, readGroup_hexadecimal, ih]
      rfl

theorem mapM_readGroup_hexadecimal (gs : List (BitVec 16)) :
    (gs.map fun g => hexadecimal g.toNat).mapM readGroup = some gs := by
  induction gs with
  | nil => rfl
  | cons g gs ih =>
    rw [List.map_cons, List.mapM_cons, readGroup_hexadecimal, ih]
    rfl

theorem pieces_writeGroups {gs : List (BitVec 16)} (h : gs ≠ []) :
    pieces (· = ':') (writeGroups gs) = gs.map fun g => hexadecimal g.toNat :=
  pieces_joined (by simpa using h) (by simp [colon_not_mem_hexadecimal])

theorem writeGroups_eq_nil {gs : List (BitVec 16)} (h : writeGroups gs = []) : gs = [] := by
  refine Decidable.byContradiction fun hn => ?_
  have cut := pieces_writeGroups hn
  -- an empty text has one piece, which no group is written as
  rw [h] at cut
  cases gs with
  | nil => exact hn rfl
  | cons g gs => exact Nat.toDigits_ne_nil (List.cons.inj cut).1.symm

theorem sidePieces_writeGroups (gs : List (BitVec 16)) :
    sidePieces (writeGroups gs) = gs.map fun g => hexadecimal g.toNat := by
  unfold sidePieces
  split
  · rename_i h
    rw [writeGroups_eq_nil h]
    rfl
  · rename_i h
    refine pieces_writeGroups ?_
    rintro rfl
    exact h rfl

/-! ## The gap

Two colons in a row are found behind pieces that are not empty, wherever they stand. -/

theorem cutGap_append {p : List Char} (hp : ':' ∉ p) (cs : List Char) :
    cutGap (p ++ cs) = (cutGap cs).map fun (before, after) => (p ++ before, after) := by
  induction p with
  | nil => simp
  | cons c p ih =>
    rw [List.mem_cons, not_or] at hp
    rw [List.cons_append, cutGap, ih hp.2, Option.map_map]
    · rfl
    · rintro _ rfl
      exact absurd rfl hp.1

theorem cutGap_colon {c : Char} (h : c ≠ ':') (cs : List Char) :
    cutGap (':' :: c :: cs) =
      (cutGap (c :: cs)).map fun (before, after) => (':' :: before, after) := by
  rw [cutGap]
  rintro _ - ⟨⟩
  exact h rfl

theorem cutGap_joined {ps : List (List Char)} (h : ∀ p ∈ ps, p ≠ [] ∧ ':' ∉ p) (cs : List Char) :
    cutGap (joined [':'] ps ++ cs) =
      (cutGap cs).map fun (before, after) => (joined [':'] ps ++ before, after) := by
  induction ps with
  | nil => simp [joined]
  | cons p ps ih =>
    rw [List.forall_mem_cons] at h
    cases ps with
    | nil => exact cutGap_append h.1.2 cs
    | cons q ps =>
      have hq := h.2 q List.mem_cons_self
      -- the colon in front of the next piece is followed by a character of that piece
      obtain ⟨c, rest, hc, hr⟩ : ∃ c rest, c ≠ ':' ∧ joined [':'] (q :: ps) = c :: rest := by
        obtain ⟨c, q, rfl⟩ := List.exists_cons_of_ne_nil hq.1
        have hc : c ≠ ':' := fun he => hq.2 (he ▸ List.mem_cons_self)
        cases ps <;> exact ⟨c, _, hc, rfl⟩
      have split : joined [':'] (p :: q :: ps) ++ cs = p ++ ':' :: c :: (rest ++ cs) := by
        simp [joined, hr]
      rw [split, cutGap_append h.1.2, cutGap_colon hc, ← List.cons_append, ← hr, ih h.2]
      simp [joined, Option.map_map, Function.comp_def]

/-- Groups are written without two colons in a row, so a gap is found behind them. -/
theorem cutGap_writeGroups (gs : List (BitVec 16)) (cs : List Char) :
    cutGap (writeGroups gs ++ cs) =
      (cutGap cs).map fun (before, after) => (writeGroups gs ++ before, after) := by
  refine cutGap_joined (fun p hp => ?_) cs
  obtain ⟨g, -, rfl⟩ := List.mem_map.mp hp
  exact ⟨Nat.toDigits_ne_nil, colon_not_mem_hexadecimal g.toNat⟩

/-! ## IPv6 addresses -/

theorem replicate_leadingZeros (gs : List (BitVec 16)) :
    gs = List.replicate (leadingZeros gs) 0 ++ gs.drop (leadingZeros gs) := by
  induction gs with
  | nil => rfl
  | cons g gs ih =>
    unfold leadingZeros
    rw [List.takeWhile_cons]
    split
    · rename_i hg
      rw [decide_eq_true_eq] at hg
      rw [hg, List.length_cons, List.replicate_succ, List.drop_succ_cons, List.cons_append]
      exact congrArg _ ih
    · rfl

/-- The longest run of zeros stands where it is said to start. -/
theorem exists_longestZeros (gs : List (BitVec 16)) :
    ∃ front back, gs = front ++ List.replicate (longestZeros gs).2 0 ++ back ∧
      front.length = (longestZeros gs).1 := by
  induction gs with
  | nil => exact ⟨[], [], rfl, rfl⟩
  | cons g gs ih =>
    obtain ⟨front, back, hs, hl⟩ := ih
    rw [longestZeros]
    dsimp only
    split
    · exact ⟨[], _, replicate_leadingZeros (g :: gs), rfl⟩
    · exact ⟨g :: front, back, congrArg (g :: ·) hs, congrArg Nat.succ hl⟩

/-- Eight groups are found again, also where a run of zeros is left out. -/
theorem readV6Groups_writeCompressed {gs : List (BitVec 16)} (h : gs.length = 8) :
    readV6Groups (writeCompressed gs) = some gs := by
  obtain ⟨front, back, hs, hl⟩ := exists_longestZeros gs
  unfold writeCompressed
  generalize longestZeros gs = run at hs hl
  obtain ⟨start, length⟩ := run
  dsimp only at hs hl ⊢
  split
  · rename_i long
    have sides : gs.take start = front ∧ gs.drop (start + length) = back := by
      subst hl hs
      simp
    have gap : cutGap (writeGroups front ++ [':', ':'] ++ writeGroups back) =
        some (writeGroups front, writeGroups back) := by
      rw [List.append_assoc, cutGap_writeGroups]
      simp [cutGap]
    have count : front.length + length + back.length = 8 := by
      rw [← h, hs]
      simp [Nat.add_assoc]
    have room : front.length + back.length ≤ 7 := by omega
    rw [sides.1, sides.2]
    simp only [readV6Groups, gap, sidePieces_writeGroups, mapM_readGroup_hexadecimal,
      readGroups_hexadecimal, Option.bind_eq_bind, Option.bind_some, if_pos room, hs]
    rw [show 8 - front.length - back.length = length by omega]
  · have gapless : cutGap (writeGroups gs) = none := by
      simpa [cutGap] using cutGap_writeGroups gs []
    have cut := @pieces_writeGroups gs (by rintro rfl; cases h)
    simp only [readV6Groups, gapless, cut, readGroups_hexadecimal]
    simp [h]

/-- An IPv4 address at the end of an IPv6 literal stands for two groups. -/
theorem readLastGroups_writeV4Chars (word : BitVec 32) :
    readLastGroups (writeV4Chars word) = some [word.extractLsb' 16 16, word.extractLsb' 0 16] := by
  have dotted : '.' ∈ writeV4Chars word := by simp [writeV4Chars, octets, joined]
  have ungrouped : readGroup (writeV4Chars word) = none := by
    refine if_neg fun h => ?_
    exact absurd (List.all_eq_true.mp h.2.2 _ dotted) (by decide)
  rw [readLastGroups, ungrouped, readV4Chars_writeV4Chars]
  rfl

theorem readV6Groups_mapped (inner : BitVec 32) :
    readV6Groups ([':', ':', 'f', 'f', 'f', 'f', ':'] ++ writeV4Chars inner) =
      some [0, 0, 0, 0, 0, 0xffff, inner.extractLsb' 16 16, inner.extractLsb' 0 16] := by
  have undivided : pieces (· = ':') (writeV4Chars inner) = [writeV4Chars inner] := by
    refine pieces_of_forall fun c hc => decide_eq_false ?_
    rintro rfl
    exact absurd (of_mem_writeV4Chars hc) (by decide)
  have cut : pieces (· = ':') (['f', 'f', 'f', 'f'] ++ ':' :: writeV4Chars inner) =
      ['f', 'f', 'f', 'f'] :: pieces (· = ':') (writeV4Chars inner) :=
    pieces_append_cons (by simp) rfl
  have side : sidePieces (['f', 'f', 'f', 'f', ':'] ++ writeV4Chars inner) =
      [['f', 'f', 'f', 'f'], writeV4Chars inner] := by
    rw [← undivided]
    exact cut
  have gap : cutGap ([':', ':', 'f', 'f', 'f', 'f', ':'] ++ writeV4Chars inner) =
      some ([], ['f', 'f', 'f', 'f', ':'] ++ writeV4Chars inner) := rfl
  simp only [readV6Groups, gap, side, readGroups, readLastGroups_writeV4Chars]
  rfl

/-- The groups of an IPv4-mapped address. -/
theorem groups_of_mapped? {word : BitVec 128} {inner : BitVec 32}
    (h : mapped? word = some inner) :
    groups word = [0, 0, 0, 0, 0, 0xffff, inner.extractLsb' 16 16, inner.extractLsb' 0 16] := by
  unfold mapped? at h
  split at h
  · rename_i hm
    cases h
    -- six groups lie in the mark, and two in the IPv4 word
    have upper (i : Nat) (hi : i + 16 ≤ 96) :
        word.extractLsb' (32 + i) 16 = mappedMark.extractLsb' i 16 := by
      rw [← hm]
      ext j hj
      simp [Nat.add_assoc, show i + j < 96 by omega]
    have lower (i : Nat) (hi : i + 16 ≤ 32) :
        word.extractLsb' i 16 = (word.extractLsb' 0 32).extractLsb' i 16 := by
      ext j hj
      simp [show i + j < 32 by omega]
    simp only [groups, List.map_cons, List.map_nil, upper 80 (by decide), upper 64 (by decide),
      upper 48 (by decide), upper 32 (by decide), upper 16 (by decide), upper 0 (by decide),
      lower 16 (by decide), lower 0 (by decide)]
    rfl
  · cases h

theorem readV6Groups_writeV6Chars (word : BitVec 128) :
    readV6Groups (writeV6Chars word) = some (groups word) := by
  unfold writeV6Chars
  split
  · rename_i inner h
    rw [groups_of_mapped? h]
    exact readV6Groups_mapped inner
  · exact readV6Groups_writeCompressed rfl

/-- A group is put behind those in front of it. -/
theorem shift_group (word : BitVec 128) (i : Nat) :
    ((word >>> (i + 16)) <<< 16) ||| (word.extractLsb' i 16).setWidth 128 = word >>> i := by
  ext j hj
  simp only [BitVec.getElem_or, BitVec.getElem_shiftLeft, BitVec.getElem_setWidth,
    BitVec.getElem_ushiftRight, BitVec.getLsbD_extractLsb']
  by_cases h : j < 16
  · simp [h]
  · simp [h, show i + 16 + (j - 16) = i + j by omega]

/-- An IPv6 word is made up of its groups. -/
theorem ofGroups_groups (word : BitVec 128) : ofGroups (groups word) = word := by
  have start : (0 : BitVec 128) = word >>> (112 + 16) := by simp [BitVec.ushiftRight_eq_zero]
  simp only [ofGroups, groups, List.map_cons, List.map_nil, List.foldl_cons, List.foldl_nil]
  rw [start, shift_group word 112, shift_group word 96, shift_group word 80, shift_group word 64,
    shift_group word 48, shift_group word 32, shift_group word 16, shift_group word 0,
    BitVec.ushiftRight_zero]

/-- The text of an IPv6 word is read as that word. -/
theorem readV6_writeV6 (word : BitVec 128) : readV6 (writeV6 word) = some word := by
  rw [readV6, writeV6, String.toList_ofList, readV6Groups_writeV6Chars, Option.map_some,
    ofGroups_groups]

theorem of_mem_writeV6Chars {word : BitVec 128} {c : Char} (h : c ∈ writeV6Chars word) :
    isHexDigit c = true ∨ c = ':' ∨ c = '.' := by
  have grouped {gs : List (BitVec 16)} (h : c ∈ writeGroups gs) :
      isHexDigit c = true ∨ c = ':' ∨ c = '.' := by
    rcases mem_joined h with h | ⟨p, hp, hc⟩
    · exact Or.inr (Or.inl (List.mem_singleton.mp h))
    · obtain ⟨g, -, rfl⟩ := List.mem_map.mp hp
      exact Or.inl (isHexDigit_of_mem_hexadecimal hc)
  unfold writeV6Chars at h
  split at h
  · rcases List.mem_append.mp h with h | h
    · have mark : ∀ c ∈ [':', ':', 'f', 'f', 'f', 'f', ':'],
          isHexDigit c = true ∨ c = ':' ∨ c = '.' := by simp [isHexDigit]
      exact mark c h
    · rcases of_mem_writeV4Chars h with h | h
      · exact Or.inl (by simp [isHexDigit, h])
      · exact Or.inr (Or.inr h)
  · unfold writeCompressed at h
    dsimp only at h
    split at h
    · rw [List.mem_append, List.mem_append] at h
      rcases h with (h | h) | h
      · exact grouped h
      · exact Or.inr (Or.inl (by simpa using h))
      · exact grouped h
    · exact grouped h

end SenderPolicy.Address
