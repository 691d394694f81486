import SenderPolicy.Proofs.Course.Expansions
import SenderPolicy.Proofs.Macro.Language
import SenderPolicy.Proofs.Record.Written

/-!
# Domains of accepted records

A record is read before any of its templates is expanded, by a grammar of its own. Both read the
same cells: wherever the grammar derives one, the reader of templates comes upon it, and upon no
other. What the grammar accepts and a domain cannot expand are therefore cells of two kinds alone:
those of the letters that explanations are allowed besides, and those that keep no part.

## Main definitions

* `Record.domains`: the domains that the terms of a record are written with
* `HasCell`: the grammar derives a cell inside a text
* `Macro.Cell.IsBarred`: a domain cannot expand the cell
* `Evaluation.Frame.ExpandsDomain`: the frame is a term with a domain, or expands one again

## Main results

* `domainSpec_of_parse`: the domains of an accepted record are what the grammar derives
* `hasCell_iff`: the cells of the grammar are those of the reader
* `isBarred_of_obstructs`, `exists_obstructs`: what obstructs a domain that was accepted
* `domain_expands_iff`: which of these domains are expanded
-/

namespace SenderPolicy

open Text Macro

/-! ## The domains of a record -/

/-- The domain that a mechanism is written with. -/
def Mechanism.domain? : Mechanism → Option String
  | included domain | existing domain => some domain
  | address domain _ | exchange domain _ | pointer domain => domain
  | all | network4 _ | network6 _ => none

/-- The domain that a modifier with a meaning is written with. -/
def Modifier.domain? : Modifier → Option String
  | redirect domain | explanation domain => some domain
  | unknown _ _ => none

namespace Record

/-- The domains that the terms of a record are written with. -/
def domains (record : Record) : List String :=
  record.directives.filterMap (fun d => d.mechanism.domain?) ++
    record.modifiers.filterMap Modifier.domain?

theorem OptionalDomain.domainSpec {target : List Char} {domain : Option (List Char)}
    (h : OptionalDomain target domain) : ∀ cs ∈ domain, DomainSpec cs := by
  cases h with
  | absent => nofun
  | present hd =>
    rintro _ ⟨rfl⟩
    exact hd

theorem MechanismParts.Denotes.domainSpec {cs : List Char} {parts : MechanismParts} {m : Mechanism}
    {spec : String} (hd : parts.Denotes m) (hw : parts.Written cs) (h : m.domain? = some spec) :
    DomainSpec spec.toList := by
  -- a domain that may be left out is one if it is there
  have optional {target : List Char} {domain : Option (List Char)}
      (hd : OptionalDomain target domain) (h : domain.map String.ofList = some spec) :
      DomainSpec spec.toList := by
    obtain ⟨cs, rfl, rfl⟩ := Option.map_eq_some_iff.mp h
    rw [String.toList_ofList]
    exact hd.domainSpec cs rfl
  cases hd with
  | included | existing =>
    cases hw
    cases h
    rwa [String.toList_ofList]
  | address | exchange | pointer =>
    cases hw
    exact optional ‹_› h
  | _ => cases h

theorem ModifierParts.Denotes.domainSpec {cs : List Char} {parts : ModifierParts} {m : Modifier}
    {spec : String} (hd : parts.Denotes m) (hw : parts.Written cs) (h : m.domain? = some spec) :
    DomainSpec spec.toList := by
  cases hd with
  | redirect | explanation =>
    cases hw
    cases h
    rwa [String.toList_ofList]
  | unknown => cases h

/-- The domains of an accepted record are what the grammar derives. -/
theorem domainSpec_of_parse {text spec : String} {record : Record} (h : parse text = .ok record)
    (hs : spec ∈ record.domains) : DomainSpec spec.toList := by
  obtain ⟨-, terms, ht, rfl, -⟩ := parse_eq_ok_iff.mp h
  have written : ∀ term ∈ terms, ∃ token, Term.Written token term :=
    fun term hm => ⟨_, written_of_forall₂ ht term hm⟩
  simp only [domains, ofTerms, List.mem_append, List.mem_filterMap] at hs
  rcases hs with ⟨d, ⟨term, hm, hd⟩, hs⟩ | ⟨m, ⟨term, hm, hd⟩, hs⟩
  · obtain ⟨token, hw⟩ := written term hm
    cases hw with
    | implied hw denotes | qualified _ hw denotes =>
      cases hd
      exact denotes.domainSpec hw hs
    | modifier => cases hd
  · obtain ⟨token, hw⟩ := written term hm
    cases hw with
    | implied | qualified => cases hd
    | modifier hw denotes =>
      cases hd
      exact denotes.domainSpec hw hs

/-! ## Cells -/

/-- The grammar derives a cell inside the text: behind a macro-string stands the text of the cell
between its braces. -/
def HasCell (cs : List Char) (cell : Cell) : Prop :=
  ∃ front content back, cs = front ++ '%' :: '\x7b' :: (content ++ '\x7d' :: back) ∧
    MacroString front ∧ Cell.Written content cell

/-- The cells that the grammar derives inside a macro-string are those that are read. -/
theorem hasCell_iff {cs : List Char} {cell : Cell} (h : MacroString cs) : HasCell cs cell ↔
    ∃ content, .cell content ∈ elements cs ∧ Cell.Written content cell := by
  constructor
  · rintro ⟨front, content, back, rfl, hf, hw⟩
    refine ⟨content, ?_, hw⟩
    rw [hf.elements_append.2, elements_cell hw.closing_not_mem]
    exact List.mem_append_right _ List.mem_cons_self
  · rintro ⟨content, hm, hw⟩
    have admitted := h.elements_append.1
    have text := flatMap_text_of_admitted admitted
    obtain ⟨before, after, he⟩ := List.append_of_mem hm
    rw [he] at admitted text
    refine ⟨before.flatMap Element.text, content, after.flatMap Element.text, ?_,
      macroString_flatMap (List.forall_mem_append.mp admitted).1, hw⟩
    rw [← text, List.flatMap_append, List.flatMap_cons]
    simp [Element.text]

end Record

namespace Macro

/-- A domain cannot expand the cell: only explanations are allowed its letter, or its digits say to
keep no part. -/
def Cell.IsBarred (cell : Cell) : Prop :=
  cell.letter.toLower ∈ ['c', 'r', 't'] ∨ cell.digits ≠ [] ∧ ∀ d ∈ cell.digits, d = '0'

section Cells

variable {values : Values} {localNames : List String} {template : String} {e : Element}
  {content : List Char} {cell : Cell} {obstacle : Obstacle}

/-- The letters of records that a domain is not allowed. -/
theorem mem_of_not_mem_lettersOf {letter : Char} (h : letter ∈ Record.valueLetters)
    (hd : letter ∉ lettersOf .domain) : letter ∈ ['c', 'r', 't'] := by
  simp only [Record.valueLetters, lettersOf, List.mem_cons, List.not_mem_nil, or_false] at *
  tauto

theorem not_mem_lettersOf {letter : Char} (h : letter ∈ ['c', 'r', 't']) :
    letter ∉ lettersOf .domain := by
  simp only [List.mem_cons, List.not_mem_nil, or_false] at h
  rcases h with rfl | rfl | rfl <;> decide

/-- What a record admits and a domain does not expand is a barred cell, or waits for the client's
name. -/
theorem isBarred_of_obstructs (ha : Record.isAdmitted e = true)
    (h : Obstructs values localNames .domain template e obstacle) :
    (∃ content cell, e = .cell content ∧ Cell.Written content cell ∧ cell.IsBarred) ∨
      obstacle = .clientDomainUnknown ∧ values.clientDomain = none := by
  cases h with
  | stray => cases ha
  | @malformed content unwritten =>
    simp only [Record.isAdmitted] at ha
    split at ha
    · exact absurd (Cell.written_of_read ‹_›) (unwritten _)
    · cases ha
  | @unknownLetter content cell written hl =>
    rw [Record.isAdmitted, written.read] at ha
    exact .inl ⟨content, cell, rfl, written,
      .inl (mem_of_not_mem_lettersOf (List.contains_iff_mem.mp ha) hl)⟩
  | clientDomainUnknown _ _ unknown => exact .inr ⟨rfl, unknown⟩
  | @keepsNoPart content cell _ written _ given zeros =>
    exact .inl ⟨content, cell, rfl, written, .inr ⟨given, zeros⟩⟩

/-- A barred cell obstructs a domain. -/
theorem exists_obstructs (known : values.clientDomain ≠ none) (hw : Cell.Written content cell)
    (barred : cell.IsBarred) :
    ∃ obstacle, Obstructs values localNames .domain template (.cell content) obstacle := by
  rcases barred with hl | ⟨given, zeros⟩
  · exact ⟨_, .unknownLetter hw (not_mem_lettersOf hl)⟩
  · -- the digits count for something only if the letter has a value
    cases hv : values.ofLetter localNames .domain cell.letter with
    | ok value => exact ⟨_, .keepsNoPart hw (ofLetter_eq_ok_iff.mp hv) given zeros⟩
    | error obstacle =>
      cases obstacle with
      | refused cause => exact ⟨_, .unknownLetter hw (ofLetter_eq_refused_iff.mp hv).1⟩
      | clientDomainUnknown => exact absurd (ofLetter_eq_unknown_iff.mp hv).2 known

end Cells

end Macro

namespace Record

section Expansion

variable {values : Values} {localNames : List String} {spec : String} {cause : Error}

/-- A domain is refused for a barred cell. -/
theorem exists_barred_of_refused (h : DomainSpec spec.toList)
    (hr : expand values localNames .domain spec = .error (.refused cause)) :
    ∃ cell, HasCell spec.toList cell ∧ cell.IsBarred := by
  rw [expand, Error.map_eq_error_iff] at hr
  obtain ⟨e, he, obstructed⟩ := exists_of_expandPiece_error hr
  have admitted := h.macroString.elements_append.1 e he
  rcases isBarred_of_obstructs admitted (expandElement_eq_error_iff.mp obstructed) with
    ⟨content, cell, rfl, written, barred⟩ | ⟨waits, -⟩
  · exact ⟨cell, (hasCell_iff h.macroString).mpr ⟨content, he, written⟩, barred⟩
  · cases waits

/-- With the client's name a domain is expanded unless it has a barred cell. -/
theorem exists_expand_iff (h : DomainSpec spec.toList) (known : values.clientDomain ≠ none) :
    (∃ name, expand values localNames .domain spec = .ok name) ↔
      ¬ ∃ cell, HasCell spec.toList cell ∧ cell.IsBarred := by
  constructor
  · rintro ⟨name, he⟩ ⟨cell, has, barred⟩
    obtain ⟨content, hm, written⟩ := (hasCell_iff h.macroString).mp has
    obtain ⟨obstacle, obstructed⟩ :=
      @exists_obstructs values localNames spec _ _ known written barred
    rw [expand, Error.map_eq_ok_iff] at he
    obtain ⟨text, hp, -⟩ := he
    obtain ⟨text', yields⟩ := exists_expandPiece_iff.mp ⟨text, hp⟩ _ hm
    rw [← expandElement_eq_error_iff, expandElement_eq_ok_iff.mpr yields] at obstructed
    cases obstructed
  · intro free
    cases he : expand values localNames .domain spec with
    | ok name => exact ⟨name, rfl⟩
    | error obstacle =>
      cases obstacle with
      | refused cause => exact absurd (exists_barred_of_refused h he) free
      | clientDomainUnknown => exact absurd (expand_eq_unknown he) known

end Expansion

end Record

/-! ## Domains under evaluation -/

namespace Evaluation

/-- The frame is a term that is written with the domain, or expands the domain again. -/
def Frame.ExpandsDomain (spec : String) : Frame → Prop
  | directive d => d.mechanism.domain? = some spec
  | modifier m => m.domain? = some spec
  | expansion template purpose => template = spec ∧ purpose.site = .domain
  | _ => False

variable {ctx : Context} {s : State} {purpose : Purpose} {spec : String} {cause : Error}

/-- The expansion of a domain raises nothing but what refuses it. -/
theorem expand_of_expandTo_raise (hs : purpose.site = .domain)
    (h : (expandTo ctx purpose spec s).signal = .raise cause) :
    expand s.values ctx.localNames .domain spec = .error (.refused cause) := by
  unfold expandTo expandFor at h
  simp only [hs, settleReceiver_domain] at h
  split at h
  · cases purpose <;> cases h
  · rename_i cause' he
    rw [he]
    cases purpose with
    | explanationDomain =>
      -- the receiver explains instead, which raises nothing
      have explained := @explainByDefault_expanded ctx s s.receivingDomain .explanationDomain rfl
      simp only [Purpose.use] at h
      generalize explainByDefault ctx s = reaction at h explained
      cases explained with
      | refused _ _ never => cases never
      | _ => cases h
    | explanation | defaultExplanation => cases hs
    | _ =>
      cases h
      rfl
  · cases h

/-- A term is refused because it is one too many, or because of its domain. -/
theorem expand_of_counted_raise (hs : purpose.site = .domain)
    (h : (s.counted (expandTo ctx purpose spec)).signal = .raise cause) :
    cause = .tooManyTerms maxTerms ∨
      ∃ values, expand values ctx.localNames .domain spec = .error (.refused cause) := by
  unfold State.counted at h
  split at h
  · exact .inr ⟨_, expand_of_expandTo_raise hs h⟩
  · cases h
    exact .inl rfl

/-- What a frame raises that expands a domain. -/
theorem Frame.ExpandsDomain.expand_of_raise {f : Frame} (h : f.ExpandsDomain spec)
    (hr : (f.check ctx s).signal = .raise cause) : cause = .tooManyTerms maxTerms ∨
      ∃ values, expand values ctx.localNames .domain spec = .error (.refused cause) := by
  cases f with
  | directive d =>
    obtain ⟨qualifier, mechanism⟩ := d
    simp only [Frame.check, directiveStep] at hr
    split at hr
    · cases hr
    · cases mechanism with
      | all | network4 | network6 => cases h
      | included | existing =>
        cases h
        exact expand_of_counted_raise rfl hr
      | address | exchange | pointer =>
        cases (h : _ = some spec)
        exact expand_of_counted_raise rfl hr
  | modifier m =>
    cases m with
    | redirect =>
      cases h
      simp only [Frame.check, modifierStep] at hr
      split at hr
      · cases hr
      · exact expand_of_counted_raise rfl hr
    | explanation =>
      cases h
      simp only [Frame.check, modifierStep] at hr
      split at hr
      · exact .inr ⟨_, expand_of_expandTo_raise rfl hr⟩
      · cases hr
    | unknown => cases h
  | expansion template purpose =>
    obtain ⟨rfl, hs⟩ := h
    exact .inr ⟨_, expand_of_expandTo_raise hs hr⟩
  | _ => cases h

end Evaluation

namespace Record

open Evaluation

/-- A domain of an accepted record is expanded unless it has a barred cell, and no other domain is
refused while it is evaluated. -/
theorem domain_expands_iff {text spec : String} {record : Record} (h : parse text = .ok record)
    (hs : spec ∈ record.domains) :
    (∀ values localNames, values.clientDomain ≠ none →
      ((∃ name, expand values localNames .domain spec = .ok name) ↔
        ¬ ∃ cell, HasCell spec.toList cell ∧ cell.IsBarred)) ∧
    ∀ ctx s (f : Frame) cause, f.ExpandsDomain spec → (f.check ctx s).signal = .raise cause →
      cause = .tooManyTerms maxTerms ∨ ∃ cell, HasCell spec.toList cell ∧ cell.IsBarred := by
  have derived := domainSpec_of_parse h hs
  refine ⟨fun _ _ known => exists_expand_iff derived known, fun _ _ _ _ expands raised => ?_⟩
  rcases expands.expand_of_raise raised with full | ⟨_, refused⟩
  · exact .inl full
  · exact .inr (exists_barred_of_refused derived refused)

/-- The letter of the client's readable address is accepted, and no domain is expanded from it. -/
theorem domain_expands_iff_of_readable :
    ∃ record, parse "v=spf1 exists:%\x7bc\x7d.b -all" = .ok record ∧
      "%\x7bc\x7d.b" ∈ record.domains ∧ ∀ values localNames, values.clientDomain ≠ none →
        ¬ ∃ name, expand values localNames .domain "%\x7bc\x7d.b" = .ok name := by
  have read : parse "v=spf1 exists:%\x7bc\x7d.b -all" = .ok
      ⟨"v=spf1 exists:%\x7bc\x7d.b -all",
        [⟨.pass, .existing "%\x7bc\x7d.b"⟩, ⟨.fail, .all⟩], [], []⟩ := rfl
  have mem : "%\x7bc\x7d.b" ∈ domains ⟨"v=spf1 exists:%\x7bc\x7d.b -all",
      [⟨.pass, .existing "%\x7bc\x7d.b"⟩, ⟨.fail, .all⟩], [], []⟩ := by decide
  refine ⟨_, read, mem, fun values localNames known expands => ?_⟩
  have written : Cell.Written ['c'] ⟨'c', [], false, []⟩ :=
    @Cell.Written.forward 'c' [] [] (by decide) (by simp) (by simp)
  exact ((domain_expands_iff read mem).1 values localNames known).mp expands
    ⟨_, ⟨[], ['c'], ['.', 'b'], rfl, .nil, written⟩, .inl (by decide)⟩

end Record

end SenderPolicy
