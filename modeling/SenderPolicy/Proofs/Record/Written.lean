import SenderPolicy.Proofs.Address.Literals
import SenderPolicy.Proofs.Record.Acceptance
import SenderPolicy.Record.Printer

/-!
# Records are read as they are written

Whatever token a term was read from, its own text is a token of the term: the keyword in small
letters, the domain as it is, a length in its shortest digits or not at all, an address in its usual
form. No token holds a space, so the tokens of a written record are the texts of its terms, its
directives in front of its modifiers.

## Main definitions

* `Term.write`: the text of a term

## Main results

* `Term.Written.write`: the text of a term is a token of that term
* `tokens_write`: the tokens of a record that is written
* `parse_write`: a record that was read is read again from its own text
-/

namespace SenderPolicy.Record

open Text Macro

/-! ## Spaces -/

theorem MacroExpand.space_not_mem {e : List Char} (h : MacroExpand e) : ' ' ∉ e := by
  intro hm
  cases h with
  | percent | space | escapedSpace => simp at hm
  | @cell content cell written known =>
    have inside : ' ' ∈ content := by simpa using hm
    -- a letter, digits, the mark of a reversal and delimiters make up the content
    cases written with
    | forward hl hd hs =>
      rw [List.mem_cons, List.mem_append] at inside
      rcases inside with rfl | hm | hm
      · exact absurd hl (by decide)
      · exact absurd (hd _ hm) (by decide)
      · exact absurd (hs _ hm) (by decide)
    | reversed hl hd hr hs =>
      rw [List.mem_cons, List.mem_append, List.mem_cons] at inside
      rcases inside with rfl | hm | rfl | hm
      · exact absurd hl (by decide)
      · exact absurd (hd _ hm) (by decide)
      · exact absurd hr (by decide)
      · exact absurd (hs _ hm) (by decide)

theorem MacroString.space_not_mem {cs : List Char} (h : MacroString cs) : ' ' ∉ cs := by
  induction h with
  | nil => simp
  | literal hc _ ih =>
    rw [List.mem_cons, not_or]
    refine ⟨?_, ih⟩
    rintro rfl
    exact absurd hc (by decide)
  | expand he _ ih =>
    rw [List.mem_append, not_or]
    exact ⟨he.space_not_mem, ih⟩

/-- No space stands in a word, in whatever case it is written. -/
theorem Keyword.space_not_mem {word : String} {k : List Char} (hk : Keyword word k)
    (hw : word ∈ words) : ' ' ∉ k := by
  have unspaced : (words.all fun word => decide (' ' ∉ word.toList)) = true := rfl
  simp only [List.all_eq_true, decide_eq_true_eq] at unspaced
  exact fun hm => unspaced word hw (hk ▸ List.mem_map_of_mem (f := foldedChar) hm)

theorem OptionalDomain.space_not_mem {cs : List Char} {domain : Option (List Char)}
    (h : OptionalDomain cs domain) : ' ' ∉ cs := by
  cases h with
  | absent => simp
  | present hd => simpa using hd.macroString.space_not_mem

theorem OptionalLength.space_not_mem {mark cs : List Char} {digits : Option (List Char)}
    (h : OptionalLength mark cs digits) (hm : ' ' ∉ mark) : ' ' ∉ cs := by
  cases h with
  | absent => simp
  | present hn hd =>
    rw [List.mem_append, not_or]
    exact ⟨hm, fun hs => absurd (hd _ hs) (by decide)⟩

theorem ShapeOfV4.space_not_mem {cs : List Char} (h : ShapeOfV4 cs) : ' ' ∉ cs := by
  obtain ⟨a, b, c, d, rfl, hr⟩ := h
  intro hs
  rcases mem_joined hs with hs | ⟨run, hm, hs⟩
  · simp at hs
  · exact absurd ((hr run hm).2.2 _ hs) (by decide)

theorem ShapeOfV6.space_not_mem {cs : List Char} (h : ShapeOfV6 cs) : ' ' ∉ cs :=
  fun hs => absurd (h.2 _ hs) (by decide)

theorem MechanismParts.Written.space_not_mem {cs : List Char} {parts : MechanismParts}
    (h : parts.Written cs) : ' ' ∉ cs := by
  cases h with
  | all hk => exact hk.space_not_mem (by decide)
  | included hk hd => simp [hk.space_not_mem (by decide), hd.macroString.space_not_mem]
  | address hk hd h4 h6 =>
    simp [hk.space_not_mem (by decide), hd.space_not_mem, h4.space_not_mem, h6.space_not_mem]
  | exchange hk hd h4 h6 =>
    simp [hk.space_not_mem (by decide), hd.space_not_mem, h4.space_not_mem, h6.space_not_mem]
  | pointer hk hd => simp [hk.space_not_mem (by decide), hd.space_not_mem]
  | network4 hk ha hl =>
    simp [hk.space_not_mem (by decide), ha.space_not_mem, hl.space_not_mem]
  | network6 hk ha hl =>
    simp [hk.space_not_mem (by decide), ha.space_not_mem, hl.space_not_mem]
  | existing hk hd => simp [hk.space_not_mem (by decide), hd.macroString.space_not_mem]

theorem ModifierParts.Written.space_not_mem {cs : List Char} {parts : ModifierParts}
    (h : parts.Written cs) : ' ' ∉ cs := by
  cases h with
  | redirect hk hd => simp [hk.space_not_mem (by decide), hd.macroString.space_not_mem]
  | explanation hk hd => simp [hk.space_not_mem (by decide), hd.macroString.space_not_mem]
  | @unknown name value hn hv =>
    have named : ' ' ∉ name := fun hm => by
      cases name with
      | nil => cases hm
      | cons first rest =>
        simp only [isModifierName, Bool.and_eq_true, List.all_eq_true] at hn
        rcases List.mem_cons.mp hm with rfl | hm
        · exact absurd hn.1 (by decide)
        · exact absurd (hn.2 _ hm) (by decide)
    simp [named, hv.space_not_mem]

/-- No token holds a space. -/
theorem Term.Written.space_not_mem {token : List Char} {term : Term} (h : Term.Written token term) :
    ' ' ∉ token := by
  cases h with
  | implied hw hd => exact hw.space_not_mem
  | qualified q hw hd =>
    rw [List.mem_cons, not_or]
    exact ⟨by cases q <;> decide, hw.space_not_mem⟩
  | modifier hw hd => exact hw.space_not_mem

/-- No token is empty. -/
theorem Term.Written.ne_nil {token : List Char} {term : Term} (h : Term.Written token term) :
    token ≠ [] := by
  rintro rfl
  -- nothing is read of an empty text
  have refused : Term.read [] = .error (.unknownTerm "") := rfl
  rw [read_eq_ok_iff.mpr h] at refused
  cases refused

/-! ## The text of a term -/

/-- The text of a term. -/
def Term.write : Term → String
  | directive d => d.write
  | modifier m => m.write

/-- The text of a length denotes it. -/
theorem exists_writeLength {width : Nat} (mark : String) (length : Fin (width + 1)) :
    ∃ digits, OptionalLength mark.toList (writeLength mark length.val width).toList digits ∧
      LengthDenotes width digits length := by
  unfold writeLength
  split
  · rename_i full
    have last : length = Fin.last width := Fin.ext full
    exact ⟨none, .absent, last ▸ .absent⟩
  · refine ⟨some (Address.decimal length.val), ?_, .present ?_⟩
    · rw [String.toList_append, Nat.toString_eq_repr, Nat.toList_repr]
      exact .present Nat.toDigits_ne_nil fun c => Address.isDigit_of_mem_decimal
    · exact Address.digitsValue_toDigits (by decide) (by decide) length.val

/-- The text of a domain is written as one. -/
theorem OptionalDomain.write {target : List Char} {domain : Option (List Char)}
    (h : OptionalDomain target domain) :
    OptionalDomain (writeDomain (domain.map String.ofList)).toList domain := by
  cases h with
  | absent => exact .absent
  | present hd => simpa [writeDomain] using OptionalDomain.present hd

theorem shapeOfV4_writeV4Chars (word : BitVec 32) : ShapeOfV4 (Address.writeV4Chars word) := by
  refine ⟨_, _, _, _, rfl, ?_⟩
  intro run hm
  obtain ⟨octet, rfl⟩ : ∃ octet : BitVec 8, run = Address.decimal octet.toNat := by
    simp only [List.mem_cons, List.not_mem_nil, or_false] at hm
    rcases hm with rfl | rfl | rfl | rfl <;> exact ⟨_, rfl⟩
  exact ⟨Nat.toDigits_ne_nil, Address.length_decimal_le, fun c => Address.isDigit_of_mem_decimal⟩

theorem shapeOfV6_writeV6Chars (word : BitVec 128) : ShapeOfV6 (Address.writeV6Chars word) := by
  refine ⟨fun hn => ?_, fun c => Address.of_mem_writeV6Chars⟩
  -- an empty text would be read as no address
  have read := Address.readV6Groups_writeV6Chars word
  rw [hn] at read
  cases read

/-- The text of a mechanism is written with parts that denote it. -/
theorem MechanismParts.Written.write {cs : List Char} {parts : MechanismParts} {m : Mechanism}
    (hw : parts.Written cs) (hd : parts.Denotes m) :
    ∃ parts : MechanismParts, parts.Written m.write.toList ∧ parts.Denotes m := by
  rw [Mechanism.write, String.toList_append]
  cases hd with
  | all => exact ⟨.all, .all rfl, .all⟩
  | @included domain =>
    cases hw with
    | included hk hs =>
      refine ⟨.included domain, ?_, .included⟩
      simpa [Mechanism.keyword, Mechanism.writeArgument, writeDomain] using
        MechanismParts.Written.included (k := "include".toList) rfl hs
  | @address domain _ _ lengths =>
    obtain ⟨digits4, h4, d4⟩ := exists_writeLength "/" lengths.ip4
    obtain ⟨digits6, h6, d6⟩ := exists_writeLength "//" lengths.ip6
    cases hw with
    | address hk hs =>
      refine ⟨.address domain digits4 digits6, ?_, .address d4 d6⟩
      simpa [Mechanism.keyword, Mechanism.writeArgument, CidrLengths.write] using
        MechanismParts.Written.address (k := "a".toList) rfl hs.write h4 h6
  | @exchange domain _ _ lengths =>
    obtain ⟨digits4, h4, d4⟩ := exists_writeLength "/" lengths.ip4
    obtain ⟨digits6, h6, d6⟩ := exists_writeLength "//" lengths.ip6
    cases hw with
    | exchange hk hs =>
      refine ⟨.exchange domain digits4 digits6, ?_, .exchange d4 d6⟩
      simpa [Mechanism.keyword, Mechanism.writeArgument, CidrLengths.write] using
        MechanismParts.Written.exchange (k := "mx".toList) rfl hs.write h4 h6
  | @pointer domain =>
    cases hw with
    | pointer hk hs =>
      refine ⟨.pointer domain, ?_, .pointer⟩
      exact MechanismParts.Written.pointer (k := "ptr".toList) rfl hs.write
  | @network4 _ _ word length ha hl =>
    obtain ⟨digits, h, d⟩ := exists_writeLength "/" length
    refine ⟨.network4 (Address.writeV4Chars word) digits, ?_, .network4 ?_ d⟩
    · simpa [Mechanism.keyword, Mechanism.writeArgument, Address.writeV4] using
        MechanismParts.Written.network4 (k := "ip4".toList) rfl (shapeOfV4_writeV4Chars word) h
    · exact Address.readV4_writeV4 word
  | @network6 _ _ word length ha hl =>
    obtain ⟨digits, h, d⟩ := exists_writeLength "/" length
    refine ⟨.network6 (Address.writeV6Chars word) digits, ?_, .network6 ?_ d⟩
    · simpa [Mechanism.keyword, Mechanism.writeArgument, Address.writeV6] using
        MechanismParts.Written.network6 (k := "ip6".toList) rfl (shapeOfV6_writeV6Chars word) h
    · exact Address.readV6_writeV6 word
  | @existing domain =>
    cases hw with
    | existing hk hs =>
      refine ⟨.existing domain, ?_, .existing⟩
      simpa [Mechanism.keyword, Mechanism.writeArgument, writeDomain] using
        MechanismParts.Written.existing (k := "exists".toList) rfl hs

/-- The text of a modifier is written with parts that denote it. -/
theorem ModifierParts.Written.write {cs : List Char} {parts : ModifierParts} {m : Modifier}
    (hw : parts.Written cs) (hd : parts.Denotes m) : parts.Written m.write.toList := by
  cases hd with
  | @redirect domain =>
    cases hw with
    | redirect hk hs =>
      simpa [Modifier.write, Modifier.name, Modifier.value] using
        ModifierParts.Written.redirect (k := "redirect".toList) rfl hs
  | @explanation domain =>
    cases hw with
    | explanation hk hs =>
      simpa [Modifier.write, Modifier.name, Modifier.value] using
        ModifierParts.Written.explanation (k := "exp".toList) rfl hs
  | unknown hn =>
    cases hw with
    | unknown hm hv =>
      simpa [Modifier.write, Modifier.name, Modifier.value] using
        ModifierParts.Written.unknown hm hv

theorem MechanismParts.Written.writeDirective {cs : List Char} {parts : MechanismParts}
    {m : Mechanism} (q : Qualifier) (hw : parts.Written cs) (hd : parts.Denotes m) :
    Term.Written (Directive.write ⟨q, m⟩).toList (.directive ⟨q, m⟩) := by
  obtain ⟨parts, hw, hd⟩ := hw.write hd
  unfold Directive.write
  -- the implied qualifier is left out
  split
  · rename_i hq
    cases hq
    rw [String.empty_append]
    exact .implied hw hd
  · simpa [Char.toString] using Term.Written.qualified q hw hd

/-- The text of a term is a token of that term. -/
theorem Term.Written.write {token : List Char} {term : Term} (h : Term.Written token term) :
    Term.Written term.write.toList term := by
  cases h with
  | implied hw hd => exact hw.writeDirective .implied hd
  | qualified q hw hd => exact hw.writeDirective q hd
  | modifier hw hd => exact .modifier (hw.write hd) hd

/-! ## The text of a record -/

/-- The terms of a record in the order in which they are written. -/
def terms (record : Record) : List Term :=
  record.directives.map .directive ++ record.modifiers.map .modifier

/-- The tokens of a record that is written are the texts of its terms. -/
theorem tokens_write {record : Record}
    (h : ∀ term ∈ record.terms, Term.Written term.write.toList term) :
    HasVersion record.write ∧
      tokens record.write = record.terms.map fun term => term.write.toList := by
  have whole : record.write.toList =
      joined [' '] (version.toList :: record.terms.map fun term => term.write.toList) := by
    simp [Record.write, join, terms, Term.write, Function.comp_def]
  have unspaced : ∀ token ∈ record.terms.map (fun term => term.write.toList),
      ' ' ∉ token ∧ token ≠ [] := by
    intro token ht
    obtain ⟨term, hm, rfl⟩ := List.mem_map.mp ht
    exact ⟨(h term hm).space_not_mem, (h term hm).ne_nil⟩
  generalize (record.terms.map fun term => term.write.toList) = written at whole unspaced
  cases written with
  | nil =>
    refine ⟨⟨version.toList, [], by simpa [joined] using whole, rfl, nofun⟩, ?_⟩
    rw [tokens, whole]
    rfl
  | cons token rest =>
    have split : record.write.toList = version.toList ++ ' ' :: joined [' '] (token :: rest) := by
      simpa [joined] using whole
    refine ⟨⟨version.toList, _, split, rfl, by simp⟩, ?_⟩
    have cut : pieces (· = ' ') (joined [' '] (token :: rest)) = token :: rest :=
      pieces_joined (List.cons_ne_nil _ _) fun p hp => (unspaced p hp).1
    rw [tokens, split, List.drop_left, ← List.nil_append (' ' :: _),
      pieces_append_cons (by simp) (by simp), cut]
    simpa using fun p hp => (unspaced p hp).2

/-- A record without decorations is made up of its terms. -/
theorem ofTerms_terms {record : Record} (h : record.decorations = []) (text : String) :
    ofTerms text record.terms = { record with text } := by
  simp [ofTerms, h, terms, List.filterMap_append, List.filterMap_map, Function.comp_def,
    Term.directive?, Term.modifier?]

/-- Terms that were read from tokens are written as tokens of themselves. -/
theorem written_of_forall₂ {read : List Term} {tokens : List (List Char)}
    (h : List.Forall₂ Term.Written tokens read) :
    ∀ term ∈ read, Term.Written term.write.toList term := by
  induction h with
  | nil => simp
  | cons hw _ ih => exact List.forall_mem_cons.mpr ⟨hw.write, ih⟩

/-- A record that was read from a text is read again from its own text, with the same directives and
the same modifiers in the same order, and is written the same again. -/
theorem parse_write {text : String} {record : Record} (h : parse text = .ok record) :
    parse record.write = .ok { record with text := record.write } ∧
      Record.write { record with text := record.write } = record.write := by
  obtain ⟨-, read, ht, rfl, single⟩ := parse_eq_ok_iff.mp h
  refine ⟨?_, rfl⟩
  -- every term of the record was read from one of the tokens
  have written : ∀ term ∈ (ofTerms text read).terms, Term.Written term.write.toList term := by
    intro term hm
    have mem : term ∈ read := by
      simp only [terms, ofTerms, List.mem_append, List.mem_map, List.mem_filterMap] at hm
      rcases hm with ⟨d, ⟨t, hr, hd⟩, rfl⟩ | ⟨m, ⟨t, hr, hd⟩, rfl⟩
      · cases t <;> cases hd
        exact hr
      · cases t <;> cases hd
        exact hr
    exact written_of_forall₂ ht term mem
  obtain ⟨version, cut⟩ := tokens_write written
  refine parse_eq_ok_iff.mpr ⟨version, (ofTerms text read).terms, ?_, ?_, single⟩
  · rw [cut, List.forall₂_map_left_iff]
    exact List.forall₂_same.mpr written
  · rw [ofTerms_terms rfl]

/-- The modifier goes behind the directive, the implied qualifier, the full length and the leading
zero go, and a domain with a slash and digits of its own keeps them. -/
theorem parse_write_of_lengths :
    let record : Record := ⟨"v=spf1 exp=e.org +A:x/24.org/032//064",
      [⟨.pass, .address (some "x/24.org") ⟨32, 64⟩⟩], [.explanation "e.org"], []⟩
    record.write = "v=spf1 a:x/24.org//64 exp=e.org" ∧
      parse record.write = .ok { record with text := record.write } := by
  have read : parse "v=spf1 exp=e.org +A:x/24.org/032//064" = .ok
      ⟨"v=spf1 exp=e.org +A:x/24.org/032//064",
        [⟨.pass, .address (some "x/24.org") ⟨32, 64⟩⟩], [.explanation "e.org"], []⟩ := rfl
  exact ⟨rfl, (parse_write read).1⟩

end SenderPolicy.Record
