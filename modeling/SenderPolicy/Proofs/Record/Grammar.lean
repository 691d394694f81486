import Mathlib.Data.List.Induction
import SenderPolicy.Record.Grammar

/-!
# The grammar of texts inside terms

The texts inside terms have a grammar of their own, in which a character may be read in several
ways: a slash or a dot is a literal as well as a mark, and what is replaced may stand inside a
domain or at its end. Reading from left to right accepts exactly what the grammar derives.

## Main definitions

* `MacroExpand`, `MacroString`: what is replaced, and templates
* `TopLabel`, `DomainSpec`: the last label of a domain, and domains

## Main results

* `isMacroString_iff`, `isTopLabel_iff`, `isDomainSpec_iff`: what is accepted is what the grammar
  derives
-/

namespace SenderPolicy.Record

open Text Macro

/-! ## The grammar -/

/-- What is replaced: a percent sign, a space, an escaped space, or a cell with a known letter. -/
inductive MacroExpand : List Char → Prop
  | percent : MacroExpand ['%', '%']
  | space : MacroExpand ['%', '_']
  | escapedSpace : MacroExpand ['%', '-']
  | cell {content : List Char} {cell : Cell} (hw : Cell.Written content cell)
      (hl : cell.letter.toLower ∈ valueLetters) :
      MacroExpand ('%' :: '\x7b' :: (content ++ ['\x7d']))

/-- Literals and what is replaced, in any order. -/
inductive MacroString : List Char → Prop
  | nil : MacroString []
  | literal {c : Char} {cs : List Char} (hc : isMacroLiteral c = true) (h : MacroString cs) :
      MacroString (c :: cs)
  | expand {e cs : List Char} (he : MacroExpand e) (h : MacroString cs) : MacroString (e ++ cs)

/-- Letters and digits with a letter among them, or with hyphens inside. -/
inductive TopLabel : List Char → Prop
  | lettered {front back : List Char} {c : Char} (hf : ∀ x ∈ front, x.isAlphanum = true)
      (hc : c.isAlpha = true) (hb : ∀ x ∈ back, x.isAlphanum = true) :
      TopLabel (front ++ c :: back)
  | hyphened {front middle : List Char} {last : Char} (hn : front ≠ [])
      (hf : ∀ x ∈ front, x.isAlphanum = true)
      (hm : ∀ x ∈ middle, x.isAlphanum = true ∨ x = '-') (hl : last.isAlphanum = true) :
      TopLabel (front ++ '-' :: (middle ++ [last]))

/-- A macro-string, and behind it a dot, a top label and perhaps a dot, or what is replaced. -/
inductive DomainSpec : List Char → Prop
  | named {front label dot : List Char} (hf : MacroString front) (hl : TopLabel label)
      (hd : dot = [] ∨ dot = ['.']) : DomainSpec (front ++ '.' :: (label ++ dot))
  | expanded {front e : List Char} (hf : MacroString front) (he : MacroExpand e) :
      DomainSpec (front ++ e)

/-! ## Macro-strings -/

/-- What is replaced is one admitted element. -/
theorem MacroExpand.elements_append {e : List Char} (h : MacroExpand e) :
    ∃ element : Element, element.text = e ∧ isAdmitted element = true ∧
      element.isExpansion = true ∧ ∀ cs, elements (e ++ cs) = element :: elements cs := by
  cases h with
  | percent => exact ⟨.percent, rfl, rfl, rfl, fun _ => rfl⟩
  | space => exact ⟨.space, rfl, rfl, rfl, fun _ => rfl⟩
  | escapedSpace => exact ⟨.escapedSpace, rfl, rfl, rfl, fun _ => rfl⟩
  | @cell content cell hw hl =>
    refine ⟨.cell content, rfl, ?_, rfl, fun cs => ?_⟩
    · rw [isAdmitted, hw.read]
      exact List.contains_iff_mem.mpr hl
    · simpa using elements_cell hw.closing_not_mem cs

/-- An admitted element that stands for something else is what is replaced. -/
theorem macroExpand_text {element : Element} (ha : isAdmitted element = true)
    (he : element.isExpansion = true) : MacroExpand element.text := by
  cases element with
  | percent => exact .percent
  | space => exact .space
  | escapedSpace => exact .escapedSpace
  | cell content =>
    rw [isAdmitted] at ha
    split at ha
    · rename_i cell hr
      exact .cell (Cell.written_of_read hr) (List.contains_iff_mem.mp ha)
    · cases ha
  | literal c => cases he
  | stray => cases he

theorem ne_percent_of_isMacroLiteral {c : Char} (h : isMacroLiteral c = true) : c ≠ '%' := by
  rw [isMacroLiteral, Bool.and_eq_true, decide_eq_true_eq] at h
  exact h.2

/-- A macro-string is read element by element, whatever stands behind it. -/
theorem MacroString.elements_append {front : List Char} (h : MacroString front) :
    (∀ e ∈ elements front, isAdmitted e = true) ∧
      ∀ cs, elements (front ++ cs) = elements front ++ elements cs := by
  -- on the macro-string: no element of it depends on what comes behind
  induction h with
  | nil => exact ⟨nofun, fun cs => rfl⟩
  | literal hc h ih =>
    have read := elements_literal (ne_percent_of_isMacroLiteral hc)
    rw [read]
    refine ⟨List.forall_mem_cons.mpr ⟨hc, ih.1⟩, fun cs => ?_⟩
    rw [List.cons_append, read, ih.2, List.cons_append]
  | expand he h ih =>
    obtain ⟨element, -, ha, -, read⟩ := he.elements_append
    rw [read]
    refine ⟨List.forall_mem_cons.mpr ⟨ha, ih.1⟩, fun cs => ?_⟩
    rw [List.append_assoc, read, ih.2, List.cons_append]

/-- The texts of admitted elements make up a macro-string. -/
theorem macroString_flatMap {es : List Element} (h : ∀ e ∈ es, isAdmitted e = true) :
    MacroString (es.flatMap Element.text) := by
  induction es with
  | nil => exact .nil
  | cons e es ih =>
    rw [List.forall_mem_cons] at h
    rw [List.flatMap_cons]
    -- an admitted element is what is replaced or a literal; a stray percent sign is neither
    by_cases he : e.isExpansion = true
    · exact .expand (macroExpand_text h.1 he) (ih h.2)
    · cases e with
      | literal c => exact .literal h.1 (ih h.2)
      | stray => cases h.1
      | _ => exact absurd rfl he

theorem flatMap_text_of_admitted {cs : List Char} (h : ∀ e ∈ elements cs, isAdmitted e = true) :
    (elements cs).flatMap Element.text = cs :=
  flatMap_text_elements fun hm => absurd (h _ hm) (by decide)

/-- The templates in the alphabet of records are the macro-strings. -/
theorem isMacroString_iff {cs : List Char} : isMacroString cs = true ↔ MacroString cs := by
  rw [isMacroString, List.all_eq_true]
  constructor
  · intro h
    have string := macroString_flatMap h
    rwa [flatMap_text_of_admitted h] at string
  · exact fun h => h.elements_append.1

theorem MacroString.append {front cs : List Char} (hf : MacroString front) (h : MacroString cs) :
    MacroString (front ++ cs) := by
  induction hf with
  | nil => exact h
  | literal hc _ ih => exact .literal hc ih
  | expand he _ ih => rw [List.append_assoc]; exact .expand he ih

theorem macroString_literals {cs : List Char} (h : ∀ c ∈ cs, isMacroLiteral c = true) :
    MacroString cs ∧ elements cs = cs.map .literal := by
  induction cs with
  | nil => exact ⟨.nil, rfl⟩
  | cons c cs ih =>
    rw [List.forall_mem_cons] at h
    refine ⟨.literal h.1 (ih h.2).1, ?_⟩
    rw [elements_literal (ne_percent_of_isMacroLiteral h.1), (ih h.2).2, List.map_cons]

/-! ## Top labels -/

theorem of_isAlphanum {c : Char} (h : c.isAlphanum = true) :
    isMacroLiteral c = true ∧ c ≠ '.' ∧ c ≠ '-' :=
  of_ascii (P := fun c => c.isAlphanum = true → isMacroLiteral c = true ∧ c ≠ '.' ∧ c ≠ '-')
    (by decide) (ascii_of_isAlphanum h) h

theorem isAlphanum_of_isAlpha {c : Char} (h : c.isAlpha = true) : c.isAlphanum = true := by
  simp [Char.isAlphanum, h]

/-- A top label holds letters, digits and hyphens, and is not empty. -/
theorem TopLabel.chars {label : List Char} (h : TopLabel label) :
    label ≠ [] ∧ ∀ c ∈ label, c.isAlphanum = true ∨ c = '-' := by
  cases h with
  | @lettered front back c hf hc hb =>
    refine ⟨by simp, fun x hx => .inl ?_⟩
    rw [List.mem_append, List.mem_cons] at hx
    rcases hx with hx | rfl | hx
    · exact hf x hx
    · exact isAlphanum_of_isAlpha hc
    · exact hb x hx
  | @hyphened front middle last hn hf hm hl =>
    refine ⟨by simp, fun x hx => ?_⟩
    simp only [List.mem_append, List.mem_cons, List.not_mem_nil, or_false] at hx
    rcases hx with hx | rfl | hx | rfl
    · exact .inl (hf x hx)
    · exact .inr rfl
    · exact hm x hx
    · exact .inl hl

/-- A label of letters, digits and hyphens is a top label if it is no number and has no hyphen at
its ends. -/
theorem topLabel_of_chars {cs : List Char} (hc : ∀ c ∈ cs, c.isAlphanum = true ∨ c = '-')
    (hl : ∃ x ∈ cs, x.isAlpha = true ∨ x = '-') (hh : cs.head? ≠ some '-')
    (ht : cs.getLast? ≠ some '-') : TopLabel cs := by
  by_cases hy : '-' ∈ cs
  · -- the first hyphen ends what the grammar begins with
    obtain ⟨front, back, rfl, hf⟩ := List.eq_append_cons_of_mem hy
    have alphanum : ∀ c ∈ front, c.isAlphanum = true := fun c hm =>
      (hc c (List.mem_append_left _ hm)).resolve_right fun he => hf (he ▸ hm)
    have hn : front ≠ [] := by
      rintro rfl
      exact hh rfl
    rcases List.eq_nil_or_concat back with rfl | ⟨middle, last, rfl⟩
    · exact absurd (by simp) ht
    · rw [List.concat_eq_append] at *
      have inside : ∀ c ∈ middle ++ [last], c.isAlphanum = true ∨ c = '-' := fun c hm =>
        hc c (List.mem_append_right _ (List.mem_cons_of_mem _ hm))
      refine .hyphened hn alphanum (fun c hm => inside c (List.mem_append_left _ hm)) ?_
      refine (inside last (by simp)).resolve_right ?_
      rintro rfl
      rw [← List.cons_append, ← List.append_assoc, List.getLast?_concat] at ht
      exact ht rfl
  -- without a hyphen, what is no digit is a letter
  · obtain ⟨x, hx, hl⟩ := hl
    have alphanum : ∀ c ∈ cs, c.isAlphanum = true := fun c hm =>
      (hc c hm).resolve_right fun he => hy (he ▸ hm)
    obtain ⟨front, back, rfl⟩ := List.append_of_mem hx
    refine .lettered (fun c hm => alphanum c (List.mem_append_left _ hm)) ?_
      fun c hm => alphanum c (List.mem_append_right _ (List.mem_cons_of_mem _ hm))
    refine hl.resolve_right ?_
    rintro rfl
    exact hy hx

/-- The labels that may be last are the top labels. -/
theorem isTopLabel_iff {cs : List Char} : isTopLabel cs = true ↔ TopLabel cs := by
  simp only [isTopLabel, Bool.and_eq_true, List.all_eq_true, List.any_eq_true, Bool.or_eq_true,
    decide_eq_true_eq]
  constructor
  · rintro ⟨⟨⟨hc, hl⟩, hh⟩, ht⟩
    exact topLabel_of_chars hc hl hh ht
  · intro h
    have chars := h.chars.2
    cases h with
    | @lettered front back c hf hc hb =>
      -- a label without hyphens has none at its ends
      have hy : '-' ∉ front ++ c :: back := by
        intro hm
        rw [List.mem_append, List.mem_cons] at hm
        rcases hm with hm | rfl | hm
        · exact absurd (hf _ hm) (by decide)
        · exact absurd hc (by decide)
        · exact absurd (hb _ hm) (by decide)
      exact ⟨⟨⟨chars, c, by simp, .inl hc⟩, fun h => hy (List.mem_of_mem_head? h)⟩,
        fun h => hy (List.mem_of_getLast? h)⟩
    | @hyphened front middle last hn hf hm hl =>
      obtain ⟨first, rest, rfl⟩ := List.exists_cons_of_ne_nil hn
      refine ⟨⟨⟨chars, '-', by simp, .inr rfl⟩, ?_⟩, ?_⟩
      · simpa using (of_isAlphanum (hf first List.mem_cons_self)).2.2
      · rw [← List.cons_append, ← List.append_assoc, List.getLast?_concat]
        simpa using (of_isAlphanum hl).2.2

/-! ## Domains -/

theorem literalTail_concat (es : List Element) (e : Element) :
    literalTail (es ++ [e]) =
      match e with
      | .literal c => literalTail es ++ [c]
      | _ => [] := by
  cases e <;> simp [literalTail]

/-- Behind the last replacement, a template consists of literals. -/
theorem exists_literalTail (es : List Element) :
    ∃ front, es = front ++ (literalTail es).map .literal := by
  induction es using List.reverseRecOn with
  | nil => exact ⟨[], rfl⟩
  | append_singleton es e ih =>
    rw [literalTail_concat]
    cases e with
    | literal c =>
      obtain ⟨front, hf⟩ := ih
      refine ⟨front, ?_⟩
      rw [List.map_append, ← List.append_assoc, ← hf]
      rfl
    | _ => exact ⟨es ++ [_], (List.append_nil _).symm⟩

theorem literalTail_append (es : List Element) (cs : List Char) :
    literalTail (es ++ cs.map .literal) = literalTail es ++ cs := by
  induction cs using List.reverseRecOn with
  | nil => simp
  | append_singleton cs c ih =>
    rw [List.map_append, ← List.append_assoc, List.map_singleton, literalTail_concat, ih]
    exact List.append_assoc ..

/-- A text ends in a top label when one stands behind its last dot but one at the very end. -/
theorem endsInTopLabel_iff {tail : List Char} : endsInTopLabel tail = true ↔
    ∃ front label dot, tail = front ++ '.' :: (label ++ dot) ∧ TopLabel label ∧
      (dot = [] ∨ dot = ['.']) := by
  constructor
  · intro h
    rw [endsInTopLabel, Bool.and_eq_true, isTopLabel_iff] at h
    -- a dot at the very end belongs to no label
    obtain ⟨dot, hd, ht⟩ : ∃ dot, (dot = [] ∨ dot = ['.']) ∧
        tail = (if tail.getLast? = some '.' then tail.dropLast else tail) ++ dot := by
      split
      · rename_i he
        obtain ⟨front, rfl⟩ := List.getLast?_eq_some_iff.mp he
        exact ⟨['.'], .inr rfl, by rw [List.dropLast_concat]⟩
      · exact ⟨[], .inl rfl, (List.append_nil _).symm⟩
    generalize (if tail.getLast? = some '.' then tail.dropLast else tail) = cs at h ht
    obtain ⟨hc, hl⟩ := h
    -- what stands behind the last dot is found from the end
    obtain ⟨label, front, hr, undotted⟩ : ∃ label front, cs.reverse = label ++ '.' :: front ∧
        '.' ∉ label :=
      List.eq_append_cons_of_mem (List.mem_reverse.mpr (List.contains_iff_mem.mp hc))
    rw [hr, takeWhile_append_of_stop] at hl
    · refine ⟨front.reverse, label.reverse, dot, ?_, hl, hd⟩
      rw [ht, ← List.reverse_reverse cs, hr]
      simp
    · intro c hm
      rw [decide_eq_true_eq]
      rintro rfl
      exact undotted hm
    · simp
  · rintro ⟨front, label, dot, rfl, hl, hd⟩
    have chars := hl.chars
    have undotted : ∀ c ∈ label, c ≠ '.' := by
      intro c hc
      rcases chars.2 c hc with h | rfl
      · exact (of_isAlphanum h).2.1
      · decide
    -- the label does not end in a dot, so just the final one is cut off
    have cut : (if (front ++ '.' :: (label ++ dot)).getLast? = some '.'
        then (front ++ '.' :: (label ++ dot)).dropLast else front ++ '.' :: (label ++ dot)) =
        front ++ '.' :: label := by
      rcases hd with rfl | rfl
      · obtain ⟨init, last, hi⟩ := (List.eq_nil_or_concat label).resolve_left chars.1
        rw [List.concat_eq_append] at hi
        rw [List.append_nil, if_neg]
        rw [hi, ← List.cons_append, ← List.append_assoc, List.getLast?_concat]
        simpa using undotted last (by simp [hi])
      · rw [← List.cons_append, ← List.append_assoc, List.getLast?_concat, if_pos rfl,
          List.dropLast_concat]
    rw [endsInTopLabel, cut, Bool.and_eq_true, isTopLabel_iff]
    refine ⟨by simp, ?_⟩
    rw [List.reverse_append, List.reverse_cons, List.append_assoc, takeWhile_append_of_stop]
    · rwa [List.reverse_reverse]
    · simpa using undotted
    · simp

theorem flatMap_text_literals (cs : List Char) :
    (cs.map Element.literal).flatMap Element.text = cs := by
  induction cs with
  | nil => rfl
  | cons c cs ih => rw [List.map_cons, List.flatMap_cons, ih]; rfl

theorem isMacroLiteral_of_labelled {label dot : List Char} (hl : TopLabel label)
    (hd : dot = [] ∨ dot = ['.']) : ∀ c ∈ '.' :: (label ++ dot), isMacroLiteral c = true := by
  intro c hc
  rw [List.mem_cons, List.mem_append] at hc
  rcases hc with rfl | hc | hc
  · rfl
  · rcases hl.chars.2 c hc with h | rfl
    · exact (of_isAlphanum h).1
    · rfl
  · rcases hd with rfl | rfl
    · cases hc
    · cases List.mem_singleton.mp hc
      rfl

/-- A domain is a macro-string. -/
theorem DomainSpec.macroString {cs : List Char} (h : DomainSpec cs) : MacroString cs := by
  cases h with
  | named hf hl hd =>
    exact hf.append (macroString_literals (isMacroLiteral_of_labelled hl hd)).1
  | @expanded front e hf he =>
    have string := MacroString.expand he .nil
    rw [List.append_nil] at string
    exact hf.append string

/-- The templates that end like a domain are the domains. -/
theorem isDomainSpec_iff {cs : List Char} : isDomainSpec cs = true ↔ DomainSpec cs := by
  rw [isDomainSpec, Bool.and_eq_true]
  constructor
  · rintro ⟨hs, he⟩
    rw [isMacroString, List.all_eq_true] at hs
    have text := flatMap_text_of_admitted hs
    generalize elements cs = es at hs he text
    split at he
    · cases he
    · rename_i e hl
      obtain ⟨init, rfl⟩ := List.getLast?_eq_some_iff.mp hl
      rw [Bool.or_eq_true] at he
      rcases he with he | he
      · -- the last element is what is replaced
        have admitted := List.forall_mem_append.mp hs
        rw [List.flatMap_append, List.flatMap_singleton] at text
        rw [← text]
        exact .expanded (macroString_flatMap admitted.1)
          (macroExpand_text (admitted.2 e (List.mem_singleton.mpr rfl)) he)
      · -- the label lies within the literals behind the last replacement
        obtain ⟨front, label, dot, ht, hl, hd⟩ := endsInTopLabel_iff.mp he
        obtain ⟨before, hb⟩ := exists_literalTail (init ++ [e])
        rw [ht, List.map_append, ← List.append_assoc] at hb
        rw [hb] at hs text
        rw [List.flatMap_append, flatMap_text_literals] at text
        rw [← text]
        exact .named (macroString_flatMap (List.forall_mem_append.mp hs).1) hl hd
  · intro h
    refine ⟨isMacroString_iff.mpr h.macroString, ?_⟩
    cases h with
    | @named front label dot hf hl hd =>
      have read := (macroString_literals (isMacroLiteral_of_labelled hl hd)).2
      rw [hf.elements_append.2, read]
      split
      · rename_i hn
        simp at hn
      · rw [Bool.or_eq_true]
        exact .inr (endsInTopLabel_iff.mpr
          ⟨literalTail (elements front), label, dot, literalTail_append .., hl, hd⟩)
    | @expanded front e hf he =>
      obtain ⟨element, -, -, hx, read⟩ := he.elements_append
      have single : elements e = [element] := by
        simpa [elements, elementsFrom] using read []
      rw [hf.elements_append.2, single, List.getLast?_concat]
      simp [hx]

end SenderPolicy.Record
