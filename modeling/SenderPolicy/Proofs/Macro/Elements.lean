import Mathlib.Data.List.Induction
import SenderPolicy.Macro.Expansion

/-!
# The elements of the macro language

What an element of a template is, and which text it yields, is said here without the automaton that
reads it and without the functions that expand it. Both agree with what is said: a text is read as
one list of elements, and an element is expanded to the text that it yields, or has none for the
reason that is given.

## Main definitions

* `Reads`: the elements that a text is read as
* `Values.Names`, `Cell.Transforms`: the value of a letter, and what a cell makes of it
* `Yields`, `Obstructs`: the text of an element, or why it has none

## Main results

* `reads_iff`: every text is read as its elements, and as nothing else
* `expandElement_eq_ok_iff`, `expandElement_eq_error_iff`: elements are expanded as is said
-/

namespace SenderPolicy.Macro

open Text

/-! ## Elements of a text -/

/-- What stands behind a percent sign makes an element of it. -/
def Continues (behind : List Char) : Prop :=
  (∃ c ∈ behind.head?, c = '%' ∨ c = '_' ∨ c = '-') ∨
    ∃ content rest, behind = '\x7b' :: (content ++ '\x7d' :: rest)

/-- A text is read as elements from left to right. A cell goes up to the next closing brace, and a
percent sign that starts no element ends the reading. -/
inductive Reads : List Char → List Element → Prop
  | nil : Reads [] []
  | literal {c : Char} {cs : List Char} {es : List Element} (hc : c ≠ '%') (rest : Reads cs es) :
      Reads (c :: cs) (.literal c :: es)
  | percent {cs : List Char} {es : List Element} (rest : Reads cs es) :
      Reads ('%' :: '%' :: cs) (.percent :: es)
  | space {cs : List Char} {es : List Element} (rest : Reads cs es) :
      Reads ('%' :: '_' :: cs) (.space :: es)
  | escapedSpace {cs : List Char} {es : List Element} (rest : Reads cs es) :
      Reads ('%' :: '-' :: cs) (.escapedSpace :: es)
  | cell {content cs : List Char} {es : List Element} (unclosed : '\x7d' ∉ content)
      (rest : Reads cs es) :
      Reads ('%' :: '\x7b' :: (content ++ '\x7d' :: cs)) (.cell content :: es)
  | stray {cs : List Char} (h : ¬ Continues cs) : Reads ('%' :: cs) [.stray]

theorem elementsFrom_unclosed {cs : List Char} (h : '\x7d' ∉ cs) (content : List Char) :
    elementsFrom (.inCell content) cs = [.stray] := by
  induction cs generalizing content with
  | nil => rfl
  | cons c cs ih =>
    rw [List.mem_cons, not_or] at h
    rw [elementsFrom, if_neg (Ne.symm h.1)]
    exact ih h.2 _

/-- A percent sign that starts nothing ends the reading. -/
theorem elements_stray {cs : List Char} (h : ¬ Continues cs) : elements ('%' :: cs) = [.stray] := by
  cases cs with
  | nil => rfl
  | cons c cs =>
    rw [elements, elementsFrom, if_pos rfl, elementsFrom]
    have unmarked : ¬ (c = '%' ∨ c = '_' ∨ c = '-') := fun hc => h (.inl ⟨c, rfl, hc⟩)
    rw [not_or, not_or] at unmarked
    rw [if_neg unmarked.1, if_neg unmarked.2.1, if_neg unmarked.2.2]
    split
    · rename_i hc
      subst hc
      refine elementsFrom_unclosed (fun hm => h (.inr ?_)) []
      obtain ⟨content, rest, rfl⟩ := List.append_of_mem hm
      exact ⟨content, rest, rfl⟩
    · rfl

theorem Reads.elements_eq {cs : List Char} {es : List Element} (h : Reads cs es) :
    elements cs = es := by
  induction h with
  | nil => rfl
  | literal hc _ ih => rw [elements_literal hc, ih]
  | percent _ ih | space _ ih | escapedSpace _ ih =>
    rw [← ih]
    rfl
  | cell unclosed _ ih => rw [elements_cell unclosed, ih]
  | stray h => exact elements_stray h

/-- Every text is read as elements. -/
theorem exists_reads (cs : List Char) : ∃ es, Reads cs es := by
  -- on the length: behind an element a shorter text is left
  induction hn : cs.length using Nat.strongRecOn generalizing cs with
  | ind n ih =>
    subst hn
    have shorter {rest : List Char} (h : rest.length < cs.length) : ∃ es, Reads rest es :=
      ih _ h rest rfl
    cases cs with
    | nil => exact ⟨[], .nil⟩
    | cons c cs =>
      by_cases hc : c = '%'
      · subst hc
        by_cases started : Continues cs
        · rcases started with ⟨c, hm, hc⟩ | ⟨content, rest, rfl⟩
          · obtain ⟨cs, rfl⟩ := List.head?_eq_some_iff.mp hm
            obtain ⟨es, h⟩ := @shorter cs (by simp only [List.length_cons]; omega)
            rcases hc with rfl | rfl | rfl
            · exact ⟨_, .percent h⟩
            · exact ⟨_, .space h⟩
            · exact ⟨_, .escapedSpace h⟩
          · -- the cell goes up to the first closing brace, which need not be the given one
            obtain ⟨inner, outer, whole, hi⟩ := List.eq_append_cons_of_mem
              (show '\x7d' ∈ content ++ '\x7d' :: rest by simp)
            rw [whole] at shorter ⊢
            obtain ⟨es, h⟩ := @shorter outer
              (by simp only [List.length_cons, List.length_append]; omega)
            exact ⟨_, .cell hi h⟩
        · exact ⟨_, .stray started⟩
      · obtain ⟨es, h⟩ := @shorter cs (by simp)
        exact ⟨_, .literal hc h⟩

/-- A text is read as its elements, and as nothing else. -/
theorem reads_iff {cs : List Char} {es : List Element} : Reads cs es ↔ elements cs = es := by
  constructor
  · exact Reads.elements_eq
  · rintro rfl
    obtain ⟨es, h⟩ := exists_reads cs
    rwa [h.elements_eq]

/-- Behind two percent signs a brace starts no cell. -/
example : Reads "%%\x7bd\x7d".toList
    [.percent, .literal '\x7b', .literal 'd', .literal '\x7d'] := by
  rw [reads_iff]
  decide

/-! ## Values -/

/-- The letters that name values where a template stands, in lower case. -/
def lettersOf : Site → List Char
  | .domain => ['i', 's', 'l', 'o', 'h', 'd', 'v', 'p']
  | .explanation => ['i', 's', 'l', 'o', 'h', 'd', 'v', 'p', 'c', 'r', 't']

/-- The value that a letter names, in either case, where a template stands. -/
inductive Values.Names (values : Values) (localNames : List String) : Site → Char → String → Prop
  | address {site : Site} {letter : Char} (h : letter.toLower = 'i') :
      Names values localNames site letter values.address
  | sender {site : Site} {letter : Char} (h : letter.toLower = 's') :
      Names values localNames site letter values.sender
  | localPart {site : Site} {letter : Char} (h : letter.toLower = 'l') :
      Names values localNames site letter values.localPart
  | senderDomain {site : Site} {letter : Char} (h : letter.toLower = 'o') :
      Names values localNames site letter values.senderDomain
  | helo {site : Site} {letter : Char} (h : letter.toLower = 'h') :
      Names values localNames site letter values.helo
  | domain {site : Site} {letter : Char} (h : letter.toLower = 'd') :
      Names values localNames site letter values.domain
  | family {site : Site} {letter : Char} (h : letter.toLower = 'v') :
      Names values localNames site letter values.family
  | clientDomain {site : Site} {letter : Char} {name : String} (h : letter.toLower = 'p')
      (known : values.clientDomain = some name) : Names values localNames site letter name
  | readableAddress {letter : Char} (h : letter.toLower = 'c') :
      Names values localNames .explanation letter values.readableAddress
  | receivingDomain {letter : Char} (h : letter.toLower = 'r') :
      Names values localNames .explanation letter
        (values.receivingDomain.getD (fallbackReceivingDomain localNames))
  | timestamp {letter : Char} (h : letter.toLower = 't') :
      Names values localNames .explanation letter (toString values.timestamp)

/-- What a cell makes of a value: of its parts the last are kept, as many as the digits say or all if
there are no digits or fewer parts, and joined by dots. -/
def Cell.Transforms (cell : Cell) (value text : String) : Prop :=
  ∃ dropped kept, cell.parts value.toList = dropped ++ kept ∧
    (cell.digits = [] ∧ dropped = [] ∨
      (∃ d ∈ cell.digits, d ≠ '0') ∧
        kept.length = min (digitsValue 10 cell.digits) (cell.parts value.toList).length) ∧
    text = String.ofList (joined ['.'] kept)

section Letters

variable {values : Values} {localNames : List String} {site : Site} {letter : Char} {value : String}

/-- A letter that names something names one value, or waits for the client's name. -/
theorem ofLetter_eq_ok_iff : values.ofLetter localNames site letter = .ok value ↔
    values.Names localNames site letter value := by
  constructor
  · intro h
    unfold Values.ofLetter at h
    split at h
    · cases h
      exact .address ‹_›
    · cases h
      exact .sender ‹_›
    · cases h
      exact .localPart ‹_›
    · cases h
      exact .senderDomain ‹_›
    · cases h
      exact .helo ‹_›
    · cases h
      exact .domain ‹_›
    · cases h
      exact .family ‹_›
    · split at h
      · cases h
        exact .clientDomain ‹_› ‹_›
      · cases h
    · cases h
      exact .readableAddress ‹_›
    · cases h
      exact .receivingDomain ‹_›
    · cases h
      exact .timestamp ‹_›
    · cases h
  · intro h
    cases h with
    | clientDomain hl known => simp only [Values.ofLetter, hl, known]
    | _ hl => simp only [Values.ofLetter, hl]

theorem ofLetter_eq_unknown_iff :
    values.ofLetter localNames site letter = .error .clientDomainUnknown ↔
      letter.toLower = 'p' ∧ values.clientDomain = none := by
  constructor
  · intro h
    unfold Values.ofLetter at h
    split at h
    case h_8 hl =>
      split at h
      · cases h
      · exact ⟨hl, ‹_›⟩
    all_goals cases h
  · rintro ⟨hl, unknown⟩
    simp only [Values.ofLetter, hl, unknown]

theorem Values.Names.mem_lettersOf (h : values.Names localNames site letter value) :
    letter.toLower ∈ lettersOf site := by
  cases h with
  | readableAddress hl | receivingDomain hl | timestamp hl => simp [hl, lettersOf]
  | clientDomain hl _ => cases site <;> simp [hl, lettersOf]
  | _ hl => cases site <;> simp [hl, lettersOf]

theorem ofLetter_eq_refused_iff {cause : Error} :
    values.ofLetter localNames site letter = .error (.refused cause) ↔
      letter.toLower ∉ lettersOf site ∧ cause = .unknownLetter letter := by
  have refused {cause : Error} (h : values.ofLetter localNames site letter =
      .error (.refused cause)) : letter.toLower ∉ lettersOf site ∧ cause = .unknownLetter letter := by
    cases site
    all_goals
      unfold Values.ofLetter at h
      split at h
      case h_8 => split at h <;> cases h
      case h_12 =>
        cases h
        simp_all [lettersOf]
      all_goals cases h
  refine ⟨refused, ?_⟩
  rintro ⟨hl, rfl⟩
  -- any other letter would name something
  cases hv : values.ofLetter localNames site letter with
  | ok value => exact absurd (ofLetter_eq_ok_iff.mp hv).mem_lettersOf hl
  | error obstacle =>
    cases obstacle with
    | refused cause => rw [(refused hv).2]
    | clientDomainUnknown =>
      refine absurd ?_ hl
      rw [(ofLetter_eq_unknown_iff.mp hv).1]
      cases site <;> decide

end Letters

/-! ## Cells -/

section Cells

variable {cell : Cell} {value text : String} {cause : Error}

/-- Digits denote zero if they are all zeros. -/
theorem digitsValue_eq_zero_iff {digits : List Char} (h : ∀ d ∈ digits, d.isDigit = true) :
    digitsValue 10 digits = 0 ↔ ∀ d ∈ digits, d = '0' := by
  have digit {d : Char} (hd : d.isDigit = true) : digitValue d = 0 ↔ d = '0' :=
    of_ascii (P := fun d => d.isDigit = true → (digitValue d = 0 ↔ d = '0')) (by decide)
      (ascii_of_isAlphanum (by simp [Char.isAlphanum, hd])) hd
  induction digits using List.reverseRecOn with
  | nil => simp [digitsValue]
  | append_singleton digits d ih =>
    rw [List.forall_mem_append, List.forall_mem_singleton] at h
    have value : digitsValue 10 (digits ++ [d]) = 10 * digitsValue 10 digits + digitValue d := by
      simp [digitsValue]
    rw [value, List.forall_mem_append, List.forall_mem_singleton]
    constructor
    · intro hz
      exact ⟨(ih h.1).mp (by omega), (digit h.2).mp (by omega)⟩
    · intro hz
      rw [(ih h.1).mpr hz.1, (digit h.2).mpr hz.2]

/-- The parts in front are dropped, and as many are kept as the digits say or as there are. -/
theorem keepLast_eq_ok_iff {α : Type} {digits : List Char} {parts kept : List α}
    (h : ∀ d ∈ digits, d.isDigit = true) : keepLast digits parts = .ok kept ↔
      ∃ dropped, parts = dropped ++ kept ∧ (digits = [] ∧ dropped = [] ∨
        (∃ d ∈ digits, d ≠ '0') ∧ kept.length = min (digitsValue 10 digits) parts.length) := by
  unfold keepLast
  split
  · rename_i hn
    subst hn
    constructor
    · rintro ⟨⟩
      exact ⟨[], rfl, .inl ⟨rfl, rfl⟩⟩
    · rintro ⟨dropped, rfl, ⟨-, rfl⟩ | ⟨⟨d, hd, -⟩, -⟩⟩
      · rfl
      · cases hd
  · rename_i hn
    split
    · rename_i hz
      constructor
      · rintro ⟨⟩
      · rintro ⟨dropped, -, ⟨rfl, -⟩ | ⟨⟨d, hd, nonzero⟩, -⟩⟩
        · exact absurd rfl hn
        · exact absurd ((digitsValue_eq_zero_iff h).mp hz d hd) nonzero
    · rename_i hz
      have nonzero : ∃ d ∈ digits, d ≠ '0' := by
        by_contra hc
        refine hz ((digitsValue_eq_zero_iff h).mpr fun d hd => ?_)
        by_contra hne
        exact hc ⟨d, hd, hne⟩
      constructor
      · rintro ⟨⟩
        refine ⟨_, (List.take_append_drop _ parts).symm, .inr ⟨nonzero, ?_⟩⟩
        rw [List.length_drop]
        omega
      · rintro ⟨dropped, rfl, ⟨rfl, -⟩ | ⟨-, hl⟩⟩
        · exact absurd rfl hn
        · rw [List.length_append] at hl ⊢
          rw [List.drop_left' (by omega)]

theorem keepLast_eq_error_iff {α : Type} {digits : List Char} {parts : List α}
    (h : ∀ d ∈ digits, d.isDigit = true) : keepLast digits parts = .error cause ↔
      digits ≠ [] ∧ (∀ d ∈ digits, d = '0') ∧ cause = .keepsNoPart := by
  rw [← digitsValue_eq_zero_iff h, keepLast]
  split
  · rename_i hn
    constructor
    · intro h
      cases h
    · intro h
      exact absurd hn h.1
  · rename_i hn
    split
    · rename_i hz
      constructor
      · intro h
        cases h
        exact ⟨hn, hz, rfl⟩
      · rintro ⟨-, -, rfl⟩
        rfl
    · rename_i hz
      constructor
      · intro h
        cases h
      · intro h
        exact absurd h.2.1 hz

theorem transform_eq_ok_iff (h : ∀ d ∈ cell.digits, d.isDigit = true) :
    cell.transform value = .ok text ↔ cell.Transforms value text := by
  rw [Cell.transform, Error.map_eq_ok_iff]
  constructor
  · rintro ⟨kept, hk, rfl⟩
    obtain ⟨dropped, hp, hd⟩ := (keepLast_eq_ok_iff h).mp hk
    exact ⟨dropped, kept, hp, hd, rfl⟩
  · rintro ⟨dropped, kept, hp, hd, rfl⟩
    exact ⟨kept, (keepLast_eq_ok_iff h).mpr ⟨dropped, hp, hd⟩, rfl⟩

theorem transform_eq_error_iff (h : ∀ d ∈ cell.digits, d.isDigit = true) :
    cell.transform value = .error cause ↔
      cell.digits ≠ [] ∧ (∀ d ∈ cell.digits, d = '0') ∧ cause = .keepsNoPart := by
  rw [Cell.transform, Error.map_eq_error_iff, keepLast_eq_error_iff h]

theorem Cell.Written.digits {content : List Char} (h : Cell.Written content cell) :
    ∀ d ∈ cell.digits, d.isDigit = true := by
  cases h with
  | forward _ hd _ => exact hd
  | reversed _ hd _ _ => exact hd

end Cells

/-! ## Texts of elements -/

/-- The text that an element yields. The value of a capital letter is escaped. -/
inductive Yields (values : Values) (localNames : List String) (site : Site) :
    Element → String → Prop
  | literal (c : Char) : Yields values localNames site (.literal c) (String.ofList [c])
  | percent : Yields values localNames site .percent "%"
  | space : Yields values localNames site .space " "
  | escapedSpace : Yields values localNames site .escapedSpace "%20"
  | cell {content : List Char} {cell : Cell} {value text : String}
      (written : Cell.Written content cell) (named : values.Names localNames site cell.letter value)
      (transforms : cell.Transforms value text) :
      Yields values localNames site (.cell content)
        (if cell.letter.isUpper then escape text else text)

/-- Why an element of the template yields no text. -/
inductive Obstructs (values : Values) (localNames : List String) (site : Site) (template : String) :
    Element → Obstacle → Prop
  | stray : Obstructs values localNames site template .stray (.refused (.malformedTemplate template))
  | malformed {content : List Char} (h : ∀ cell, ¬ Cell.Written content cell) :
      Obstructs values localNames site template (.cell content)
        (.refused (.malformedCell (String.ofList content)))
  | unknownLetter {content : List Char} {cell : Cell} (written : Cell.Written content cell)
      (h : cell.letter.toLower ∉ lettersOf site) :
      Obstructs values localNames site template (.cell content)
        (.refused (.unknownLetter cell.letter))
  | clientDomainUnknown {content : List Char} {cell : Cell} (written : Cell.Written content cell)
      (h : cell.letter.toLower = 'p') (unknown : values.clientDomain = none) :
      Obstructs values localNames site template (.cell content) .clientDomainUnknown
  | keepsNoPart {content : List Char} {cell : Cell} {value : String}
      (written : Cell.Written content cell) (named : values.Names localNames site cell.letter value)
      (given : cell.digits ≠ []) (zeros : ∀ d ∈ cell.digits, d = '0') :
      Obstructs values localNames site template (.cell content) (.refused .keepsNoPart)

section Elements

variable {values : Values} {localNames : List String} {site : Site} {template text : String}
  {e : Element} {obstacle : Obstacle}

/-- An element is expanded to the text that it yields. -/
theorem expandElement_eq_ok_iff : expandElement values localNames site template e = .ok text ↔
    Yields values localNames site e text := by
  constructor
  · intro h
    cases e with
    | literal c => cases h; exact .literal c
    | percent => cases h; exact .percent
    | space => cases h; exact .space
    | escapedSpace => cases h; exact .escapedSpace
    | stray => cases h
    | cell content =>
      simp only [expandElement, expandCell] at h
      split at h
      · cases h
      · rename_i cell hr
        have written := Cell.written_of_read hr
        split at h
        · cases h
        · rename_i value hv
          split at h
          · cases h
          · rename_i transformed ht
            cases h
            exact .cell written (ofLetter_eq_ok_iff.mp hv)
              ((transform_eq_ok_iff written.digits).mp ht)
  · intro h
    cases h with
    | cell written named transforms =>
      simp only [expandElement, expandCell, written.read, ofLetter_eq_ok_iff.mpr named,
        (transform_eq_ok_iff written.digits).mpr transforms]
    | _ => rfl

/-- An element is not expanded for the reason that it yields no text. -/
theorem expandElement_eq_error_iff :
    expandElement values localNames site template e = .error obstacle ↔
      Obstructs values localNames site template e obstacle := by
  constructor
  · intro h
    cases e with
    | stray => cases h; exact .stray
    | cell content =>
      simp only [expandElement, expandCell] at h
      split at h
      · rename_i hr
        cases h
        refine .malformed fun cell written => ?_
        rw [written.read] at hr
        cases hr
      · rename_i cell hr
        have written := Cell.written_of_read hr
        split at h
        · rename_i obstacle' hv
          cases h
          cases obstacle with
          | refused cause =>
            obtain ⟨hl, rfl⟩ := ofLetter_eq_refused_iff.mp hv
            exact .unknownLetter written hl
          | clientDomainUnknown =>
            obtain ⟨hl, unknown⟩ := ofLetter_eq_unknown_iff.mp hv
            exact .clientDomainUnknown written hl unknown
        · rename_i value hv
          split at h
          · rename_i cause ht
            cases h
            obtain ⟨given, zeros, rfl⟩ := (transform_eq_error_iff written.digits).mp ht
            exact .keepsNoPart written (ofLetter_eq_ok_iff.mp hv) given zeros
          · cases h
    | _ => cases h
  · intro h
    cases h with
    | stray => rfl
    | @malformed content h =>
      have unread : Cell.read content = none := by
        by_contra hc
        obtain ⟨cell, hr⟩ := Option.ne_none_iff_exists'.mp hc
        exact h cell (Cell.written_of_read hr)
      simp only [expandElement, expandCell, unread]
    | unknownLetter written h =>
      simp only [expandElement, expandCell, written.read, ofLetter_eq_refused_iff.mpr ⟨h, rfl⟩]
    | clientDomainUnknown written h unknown =>
      simp only [expandElement, expandCell, written.read, ofLetter_eq_unknown_iff.mpr ⟨h, unknown⟩]
    | keepsNoPart written named given zeros =>
      simp only [expandElement, expandCell, written.read, ofLetter_eq_ok_iff.mpr named,
        (transform_eq_error_iff written.digits).mpr ⟨given, zeros, rfl⟩]

end Elements

end SenderPolicy.Macro
