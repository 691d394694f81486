import SenderPolicy.Proofs.Record.Lengths

/-!
# Mechanisms are read as they are written

The word in front of the first colon or slash says how the rest of a mechanism is cut. What is cut
that way is what the grammar derives, and the values of the parts are refused only if the parts
denote nothing.

## Main definitions

* `MechanismParts.answer`: the mechanism of parts, or why their values are refused
* `words`, `marks`: the words that name terms, and the characters around them

## Main results

* `ofDomain_iff`, `ofDomainAndLengths_iff`, `ofNetwork_iff`: how an argument is read
* `readMechanism_eq_some_iff`: a text is read as a mechanism when it is written as one
* `MechanismParts.answer_eq_ok_iff`: parts are answered with what they denote
-/

namespace SenderPolicy.Record

open Text Macro Error

/-! ## Shapes of addresses -/

theorem hasShapeOfV4_iff {cs : List Char} : hasShapeOfV4 cs = true ↔ ShapeOfV4 cs := by
  have runs {ps : List (List Char)} : (ps.all fun p => p ≠ [] && p.length ≤ 3 && p.all Char.isDigit)
      = true ↔ ∀ run ∈ ps, run ≠ [] ∧ run.length ≤ 3 ∧ ∀ x ∈ run, x.isDigit = true := by
    simp [and_assoc]
  simp only [hasShapeOfV4, Bool.and_eq_true, decide_eq_true_eq]
  rw [runs]
  constructor
  · rintro ⟨hl, hr⟩
    have whole := joined_pieces '.' cs
    -- the pieces between the dots are four, and make up the text again
    generalize pieces (· = '.') cs = ps at hl hr whole
    match ps, hl with
    | [a, b, c, d], _ => exact ⟨a, b, c, d, whole.symm, hr⟩
  · rintro ⟨a, b, c, d, rfl, hr⟩
    have undotted : ∀ run ∈ [a, b, c, d], '.' ∉ run := by
      intro run hm hdot
      exact absurd ((hr run hm).2.2 _ hdot) (by decide)
    rw [pieces_joined (by simp) undotted]
    exact ⟨rfl, hr⟩

theorem hasShapeOfV6_iff {cs : List Char} : hasShapeOfV6 cs = true ↔ ShapeOfV6 cs := by
  simp [hasShapeOfV6, ShapeOfV6, or_assoc]

theorem ShapeOfV4.slash_not_mem {cs : List Char} (h : ShapeOfV4 cs) : '/' ∉ cs := by
  obtain ⟨a, b, c, d, rfl, hr⟩ := h
  have unslashed : ∀ run ∈ [a, b, c, d], '/' ∉ run := by
    intro run hm hs
    exact absurd ((hr run hm).2.2 _ hs) (by decide)
  simp only [List.forall_mem_cons] at unslashed
  simp [joined, unslashed]

theorem ShapeOfV6.slash_not_mem {cs : List Char} (h : ShapeOfV6 cs) : '/' ∉ cs := by
  intro hm
  exact absurd (h.2 _ hm) (by decide)

/-! ## Arguments -/

section Arguments

variable {argument : List Char} {answer : Except Error Mechanism}

theorem ofDomain_iff {build : String → Mechanism} : ofDomain build argument = some answer ↔
    ∃ domain, argument = ':' :: domain ∧ DomainSpec domain ∧
      answer = .ok (build (String.ofList domain)) := by
  constructor
  · intro h
    unfold ofDomain at h
    split at h
    · split at h
      · rename_i hd
        cases h
        exact ⟨_, rfl, isDomainSpec_iff.mp hd, rfl⟩
      · cases h
    · cases h
  · rintro ⟨domain, rfl, hd, rfl⟩
    rw [ofDomain, if_pos (isDomainSpec_iff.mpr hd)]

theorem ofDomainAndLengths_iff {build : Option String → CidrLengths → Mechanism} :
    ofDomainAndLengths build argument = some answer ↔
      ∃ target four six domain digits4 digits6, argument = target ++ four ++ six ∧
        OptionalDomain target domain ∧ OptionalLength ['/'] four digits4 ∧
        OptionalLength ['/', '/'] six digits6 ∧
        answer = (readLengths digits4 digits6).map (build (domain.map String.ofList)) := by
  constructor
  · intro h
    obtain ⟨front, digits6, h6⟩ : ∃ front digits, cutLength ['/', '/'] argument = (front, digits) :=
      ⟨_, _, rfl⟩
    obtain ⟨target, digits4, h4⟩ : ∃ target digits, cutLength ['/'] front = (target, digits) :=
      ⟨_, _, rfl⟩
    simp only [ofDomainAndLengths, cutLengths, h6, h4] at h
    obtain ⟨six, rfl, hl6⟩ := exists_of_cutLength h6
    obtain ⟨four, rfl, hl4⟩ := exists_of_cutLength h4
    -- what is left in front of the lengths is nothing, or a colon and a domain
    split at h
    · rename_i hc
      cases hc
      cases h
      exact ⟨[], four, six, none, _, _, rfl, .absent, hl4, hl6, rfl⟩
    · rename_i hc
      cases hc
      split at h
      · rename_i hd
        cases h
        exact ⟨_, four, six, some _, _, _, rfl, .present (isDomainSpec_iff.mp hd), hl4, hl6, rfl⟩
      · cases h
    · cases h
  · rintro ⟨target, four, six, domain, digits4, digits6, rfl, hd, h4, h6, rfl⟩
    have cut := cutLengths_of_lengths hd h4 h6
    cases hd with
    | absent => simp only [ofDomainAndLengths, cut]; rfl
    | present hd =>
      simp only [ofDomainAndLengths, cut]
      rw [if_pos (isDomainSpec_iff.mpr hd)]
      rfl

theorem ofNetwork_iff {hasShape : List Char → Bool}
    {read : List Char → Option (List Char) → Except Error Mechanism}
    (unslashed : ∀ cs, hasShape cs = true → '/' ∉ cs) :
    ofNetwork hasShape read argument = some answer ↔
      ∃ address length digits, argument = ':' :: (address ++ length) ∧ hasShape address = true ∧
        OptionalLength ['/'] length digits ∧ answer = read address digits := by
  constructor
  · intro h
    unfold ofNetwork at h
    split at h
    · rename_i cs
      obtain ⟨address, digits, hc⟩ : ∃ address digits, cutLength ['/'] cs = (address, digits) :=
        ⟨_, _, rfl⟩
      simp only [hc] at h
      obtain ⟨length, rfl, hl⟩ := exists_of_cutLength hc
      split at h
      · rename_i hs
        cases h
        exact ⟨address, length, digits, rfl, hs, hl, rfl⟩
      · cases h
    · cases h
  · rintro ⟨address, length, digits, rfl, hs, hl, rfl⟩
    simp only [ofNetwork, cutLength_of_unslashed (unslashed _ hs) hl]
    rw [if_pos hs]

end Arguments

/-! ## Mechanisms -/

/-- The mechanism of parts, or why their values are refused. -/
def MechanismParts.answer : MechanismParts → Except Error Mechanism
  | all => .ok .all
  | included domain => .ok (.included (String.ofList domain))
  | address domain digits4 digits6 =>
    (readLengths digits4 digits6).map (.address (domain.map String.ofList))
  | exchange domain digits4 digits6 =>
    (readLengths digits4 digits6).map (.exchange (domain.map String.ofList))
  | pointer domain => .ok (.pointer (domain.map String.ofList))
  | network4 literal digits => readNetwork4 literal digits
  | network6 literal digits => readNetwork6 literal digits
  | existing domain => .ok (.existing (String.ofList domain))

/-- The words that name mechanisms. -/
def keywords : List String := ["all", "include", "a", "mx", "ptr", "ip4", "ip6", "exists"]

/-- The words that name terms. -/
def words : List String := "redirect" :: "exp" :: keywords

theorem mem_words {word : String} (h : word ∈ keywords) : word ∈ words :=
  List.mem_cons_of_mem _ (List.mem_cons_of_mem _ h)

/-- The characters that end a word, and those of the qualifiers in front of it. -/
def marks : List Char := [':', '/', '=', '+', '-', '~', '?']

theorem mark_not_mem_words : ∀ word ∈ words, word.toList ≠ [] ∧ ∀ c ∈ marks, c ∉ word.toList := by
  have checked : (words.all fun word =>
      decide (word.toList ≠ []) && marks.all fun c => decide (c ∉ word.toList)) = true := rfl
  simpa only [List.all_eq_true, Bool.and_eq_true, decide_eq_true_eq] using checked

theorem foldedChar_marks : ∀ c ∈ marks, foldedChar c = c := by
  have checked : (marks.all fun c => decide (foldedChar c = c)) = true := rfl
  simpa only [List.all_eq_true, decide_eq_true_eq] using checked

/-- No mark stands in a word, in whatever case it is written. -/
theorem Keyword.mark_not_mem {word : String} {k : List Char} (hk : Keyword word k)
    (hw : word ∈ words) {c : Char} (hc : c ∈ marks) : c ∉ k := by
  intro hm
  -- folding would carry the mark over into the word itself
  have folded : foldedChar c ∈ word.toList := hk ▸ List.mem_map_of_mem hm
  rw [foldedChar_marks c hc] at folded
  exact (mark_not_mem_words word hw).2 c hc folded

/-- No character of a word ends it. -/
theorem Keyword.endsKeyword {word : String} {k : List Char} (hk : Keyword word k)
    (hw : word ∈ words) : ∀ c ∈ k, endsKeyword c = false := by
  intro c hc
  rw [Bool.eq_false_iff]
  intro he
  rw [Record.endsKeyword, Bool.or_eq_true, decide_eq_true_eq, decide_eq_true_eq] at he
  rcases he with rfl | rfl
  · exact hk.mark_not_mem hw (by decide) hc
  · exact hk.mark_not_mem hw (by decide) hc

/-- A text is cut into the word that it starts with and the argument behind it. -/
theorem Keyword.cut_append {word : String} {k argument : List Char} (hk : Keyword word k)
    (hw : word ∈ words) (ha : ∀ c ∈ argument.head?, Record.endsKeyword c = true) :
    String.ofList (((k ++ argument).takeWhile fun c => !Record.endsKeyword c).map foldedChar) =
        word ∧
      (k ++ argument).dropWhile (fun c => !Record.endsKeyword c) = argument := by
  have run : ∀ c ∈ k, (!Record.endsKeyword c) = true :=
    fun c hc => by rw [hk.endsKeyword hw c hc]; rfl
  have stop : ∀ c ∈ argument.head?, (!Record.endsKeyword c) = false :=
    fun c hc => by rw [ha c hc]; rfl
  rw [takeWhile_append_of_stop run stop, dropWhile_append_of_stop run stop, hk,
    String.ofList_toList]
  exact ⟨rfl, rfl⟩

theorem readMechanism_append {word : String} {k argument : List Char} (hk : Keyword word k)
    (hw : word ∈ words) (ha : ∀ c ∈ argument.head?, endsKeyword c = true) :
    readMechanism (k ++ argument) = ofKeyword word argument := by
  obtain ⟨front, behind⟩ := hk.cut_append hw ha
  rw [readMechanism, front, behind]

theorem endsKeyword_argument {target four six : List Char}
    {domain digits4 digits6 : Option (List Char)} (hd : OptionalDomain target domain)
    (h4 : OptionalLength ['/'] four digits4) (h6 : OptionalLength ['/', '/'] six digits6) :
    ∀ c ∈ (target ++ four ++ six).head?, endsKeyword c = true := by
  cases hd <;> cases h4 <;> cases h6 <;> simp [endsKeyword]

/-- How a mechanism of parts is read. -/
theorem MechanismParts.Written.exists_keyword {cs : List Char} {parts : MechanismParts}
    (h : parts.Written cs) : ∃ word ∈ keywords, ∃ k argument, cs = k ++ argument ∧
      Keyword word k ∧ (∀ c ∈ argument.head?, endsKeyword c = true) ∧
      ofKeyword word argument = some parts.answer := by
  cases h with
  | all hk => exact ⟨"all", by decide, cs, [], by simp, hk, nofun, rfl⟩
  | included hk hd =>
    exact ⟨"include", by decide, _, _, rfl, hk, by simp [endsKeyword],
      ofDomain_iff.mpr ⟨_, rfl, hd, rfl⟩⟩
  | address hk hd h4 h6 =>
    exact ⟨"a", by decide, _, _, rfl, hk, endsKeyword_argument hd h4 h6,
      ofDomainAndLengths_iff.mpr ⟨_, _, _, _, _, _, rfl, hd, h4, h6, rfl⟩⟩
  | exchange hk hd h4 h6 =>
    exact ⟨"mx", by decide, _, _, rfl, hk, endsKeyword_argument hd h4 h6,
      ofDomainAndLengths_iff.mpr ⟨_, _, _, _, _, _, rfl, hd, h4, h6, rfl⟩⟩
  | pointer hk hd =>
    cases hd with
    | absent => exact ⟨"ptr", by decide, _, _, rfl, hk, nofun, rfl⟩
    | present hd =>
      refine ⟨"ptr", by decide, _, _, rfl, hk, by simp [endsKeyword], ?_⟩
      exact (@ofDomain_iff _ _ fun d => .pointer (some d)).mpr ⟨_, rfl, hd, rfl⟩
  | network4 hk ha hl =>
    exact ⟨"ip4", by decide, _, _, rfl, hk, by simp [endsKeyword],
      (ofNetwork_iff fun cs h => (hasShapeOfV4_iff.mp h).slash_not_mem).mpr
        ⟨_, _, _, rfl, hasShapeOfV4_iff.mpr ha, hl, rfl⟩⟩
  | network6 hk ha hl =>
    exact ⟨"ip6", by decide, _, _, rfl, hk, by simp [endsKeyword],
      (ofNetwork_iff fun cs h => (hasShapeOfV6_iff.mp h).slash_not_mem).mpr
        ⟨_, _, _, rfl, hasShapeOfV6_iff.mpr ha, hl, rfl⟩⟩
  | existing hk hd =>
    exact ⟨"exists", by decide, _, _, rfl, hk, by simp [endsKeyword],
      ofDomain_iff.mpr ⟨_, rfl, hd, rfl⟩⟩

/-- A keyword is read with the argument that it is written with. -/
theorem exists_of_ofKeyword {word : String} {k argument : List Char}
    {answer : Except Error Mechanism} (hk : Keyword word k)
    (h : ofKeyword word argument = some answer) :
    ∃ parts : MechanismParts, parts.Written (k ++ argument) ∧ parts.answer = answer := by
  unfold ofKeyword at h
  -- one case for each keyword, in the order of the reader
  split at h
  · split at h
    · rename_i ha
      cases h
      rw [ha, List.append_nil]
      exact ⟨.all, .all hk, rfl⟩
    · cases h
  · obtain ⟨domain, rfl, hd, rfl⟩ := ofDomain_iff.mp h
    exact ⟨.included domain, .included hk hd, rfl⟩
  · obtain ⟨_, _, _, _, _, _, rfl, hd, h4, h6, rfl⟩ := ofDomainAndLengths_iff.mp h
    exact ⟨_, .address hk hd h4 h6, rfl⟩
  · obtain ⟨_, _, _, _, _, _, rfl, hd, h4, h6, rfl⟩ := ofDomainAndLengths_iff.mp h
    exact ⟨_, .exchange hk hd h4 h6, rfl⟩
  · split at h
    · rename_i ha
      cases h
      rw [ha]
      exact ⟨.pointer none, .pointer hk .absent, rfl⟩
    · obtain ⟨domain, rfl, hd, rfl⟩ := ofDomain_iff.mp h
      exact ⟨.pointer (some domain), .pointer hk (.present hd), rfl⟩
  · obtain ⟨address, length, digits, rfl, hs, hl, rfl⟩ :=
      (ofNetwork_iff fun cs h => (hasShapeOfV4_iff.mp h).slash_not_mem).mp h
    exact ⟨_, .network4 hk (hasShapeOfV4_iff.mp hs) hl, rfl⟩
  · obtain ⟨address, length, digits, rfl, hs, hl, rfl⟩ :=
      (ofNetwork_iff fun cs h => (hasShapeOfV6_iff.mp h).slash_not_mem).mp h
    exact ⟨_, .network6 hk (hasShapeOfV6_iff.mp hs) hl, rfl⟩
  · obtain ⟨domain, rfl, hd, rfl⟩ := ofDomain_iff.mp h
    exact ⟨.existing domain, .existing hk hd, rfl⟩
  · cases h

/-- A text is read as a mechanism when it is written as one. -/
theorem readMechanism_eq_some_iff {cs : List Char} {answer : Except Error Mechanism} :
    readMechanism cs = some answer ↔
      ∃ parts : MechanismParts, parts.Written cs ∧ parts.answer = answer := by
  constructor
  · intro h
    have written := exists_of_ofKeyword (k := cs.takeWhile fun c => !endsKeyword c)
      (by rw [Keyword, String.toList_ofList]) h
    rwa [List.takeWhile_append_dropWhile] at written
  · rintro ⟨parts, hw, rfl⟩
    obtain ⟨word, hm, k, argument, rfl, hk, ha, hr⟩ := hw.exists_keyword
    rw [readMechanism_append hk (mem_words hm) ha, hr]

/-! ## What mechanisms denote -/

theorem readLength_eq_ok_iff {width : Nat} {digits : Option (List Char)}
    {length : Fin (width + 1)} :
    readLength width digits = .ok length ↔ LengthDenotes width digits length := by
  cases digits with
  | none =>
    constructor
    · rintro ⟨⟩
      exact .absent
    · rintro ⟨⟩
      rfl
  | some digits =>
    simp only [readLength]
    -- digits of any length denote a number; only its value is bounded
    constructor
    · intro h
      split at h
      · cases h
        exact .present rfl
      · cases h
    · intro h
      cases h with | present hv => ?_
      have hle : digitsValue 10 digits ≤ width := hv ▸ Nat.le_of_lt_succ length.isLt
      rw [dif_pos hle]
      exact congrArg Except.ok (Fin.ext hv)

theorem readLength_eq_error {width : Nat} {digits : Option (List Char)} {cause : Error}
    (h : readLength width digits = .error cause) : cause.result = .permError := by
  cases digits with
  | none => cases h
  | some digits =>
    simp only [readLength] at h
    split at h
    · cases h
    · cases h
      rfl

theorem readLengths_eq_ok_iff {four six : Option (List Char)} {lengths : CidrLengths} :
    readLengths four six = .ok lengths ↔
      LengthDenotes 32 four lengths.ip4 ∧ LengthDenotes 128 six lengths.ip6 := by
  rw [readLengths, bind_eq_ok_iff]
  constructor
  · rintro ⟨length4, h4, h⟩
    obtain ⟨length6, h6, ⟨⟩⟩ := bind_eq_ok_iff.mp h
    exact ⟨readLength_eq_ok_iff.mp h4, readLength_eq_ok_iff.mp h6⟩
  · rintro ⟨h4, h6⟩
    exact ⟨_, readLength_eq_ok_iff.mpr h4,
      bind_eq_ok_iff.mpr ⟨_, readLength_eq_ok_iff.mpr h6, rfl⟩⟩

theorem readLengths_eq_error {four six : Option (List Char)} {cause : Error}
    (h : readLengths four six = .error cause) : cause.result = .permError := by
  rcases bind_eq_error_iff.mp h with h4 | ⟨length4, -, h⟩
  · exact readLength_eq_error h4
  · rcases bind_eq_error_iff.mp h with h6 | ⟨length6, -, ⟨⟩⟩
    exact readLength_eq_error h6

theorem readNetwork4_eq_ok_iff {literal : List Char} {digits : Option (List Char)}
    {m : Mechanism} : readNetwork4 literal digits = .ok m ↔
      ∃ word length, Address.readV4 (String.ofList literal) = some word ∧
        LengthDenotes 32 digits length ∧ .network4 ⟨word, length⟩ = m := by
  simp only [readNetwork4, Address.readV4, String.toList_ofList]
  cases Address.readV4Chars literal with
  | none => simp
  | some word => simp [map_eq_ok_iff, readLength_eq_ok_iff]

theorem readNetwork4_eq_error {literal : List Char} {digits : Option (List Char)} {cause : Error}
    (h : readNetwork4 literal digits = .error cause) : cause.result = .permError := by
  unfold readNetwork4 at h
  split at h
  · cases h
    rfl
  · exact readLength_eq_error (map_eq_error_iff.mp h)

theorem readNetwork6_eq_ok_iff {literal : List Char} {digits : Option (List Char)}
    {m : Mechanism} : readNetwork6 literal digits = .ok m ↔
      ∃ word length, Address.readV6 (String.ofList literal) = some word ∧
        LengthDenotes 128 digits length ∧ .network6 ⟨word, length⟩ = m := by
  simp only [readNetwork6]
  cases Address.readV6 (String.ofList literal) with
  | none => simp
  | some word => simp [map_eq_ok_iff, readLength_eq_ok_iff]

theorem readNetwork6_eq_error {literal : List Char} {digits : Option (List Char)} {cause : Error}
    (h : readNetwork6 literal digits = .error cause) : cause.result = .permError := by
  unfold readNetwork6 at h
  split at h
  · cases h
    rfl
  · exact readLength_eq_error (map_eq_error_iff.mp h)

/-- Parts are answered with what they denote. -/
theorem MechanismParts.answer_eq_ok_iff {parts : MechanismParts} {m : Mechanism} :
    parts.answer = .ok m ↔ parts.Denotes m := by
  constructor
  · intro h
    cases parts with
    | all => cases h; exact .all
    | included domain => cases h; exact .included
    | address domain digits4 digits6 =>
      obtain ⟨lengths, hl, rfl⟩ := map_eq_ok_iff.mp h
      obtain ⟨h4, h6⟩ := readLengths_eq_ok_iff.mp hl
      exact .address h4 h6
    | exchange domain digits4 digits6 =>
      obtain ⟨lengths, hl, rfl⟩ := map_eq_ok_iff.mp h
      obtain ⟨h4, h6⟩ := readLengths_eq_ok_iff.mp hl
      exact .exchange h4 h6
    | pointer domain => cases h; exact .pointer
    | network4 literal digits =>
      obtain ⟨word, length, hw, hl, rfl⟩ := readNetwork4_eq_ok_iff.mp h
      exact .network4 hw hl
    | network6 literal digits =>
      obtain ⟨word, length, hw, hl, rfl⟩ := readNetwork6_eq_ok_iff.mp h
      exact .network6 hw hl
    | existing domain => cases h; exact .existing
  · intro h
    cases h with
    | address h4 h6 => exact map_eq_ok_iff.mpr ⟨_, readLengths_eq_ok_iff.mpr ⟨h4, h6⟩, rfl⟩
    | exchange h4 h6 => exact map_eq_ok_iff.mpr ⟨_, readLengths_eq_ok_iff.mpr ⟨h4, h6⟩, rfl⟩
    | network4 ha hl => exact readNetwork4_eq_ok_iff.mpr ⟨_, _, ha, hl, rfl⟩
    | network6 ha hl => exact readNetwork6_eq_ok_iff.mpr ⟨_, _, ha, hl, rfl⟩
    | _ => rfl

/-- Values that are refused are refused for good. -/
theorem MechanismParts.result_of_answer {parts : MechanismParts} {cause : Error}
    (h : parts.answer = .error cause) : cause.result = .permError := by
  cases parts with
  | address domain digits4 digits6 => exact readLengths_eq_error (map_eq_error_iff.mp h)
  | exchange domain digits4 digits6 => exact readLengths_eq_error (map_eq_error_iff.mp h)
  | network4 literal digits => exact readNetwork4_eq_error h
  | network6 literal digits => exact readNetwork6_eq_error h
  | _ => cases h

end SenderPolicy.Record
