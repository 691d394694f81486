import Mathlib.Data.List.Forall2
import SenderPolicy.Proofs.Record.Reading

/-!
# The records that are accepted

A text with the version token is accepted when every token behind it is written as a term and no
modifier is repeated that may stand once. The record then holds what the tokens denote, in their
order. A text without the version token is no record; every other text is refused for good.

## Main definitions

* `HasVersion`: the text starts with the version token
* `ofTerms`: the record of terms in order

## Main results

* `parse_eq_iff`: which texts are accepted, and what is answered to all others
-/

namespace SenderPolicy.Record

open Text

/-! ## The version token -/

/-- The text starts with the version token in any case, which ends at a space or with the text. -/
def HasVersion (text : String) : Prop :=
  ∃ token rest, text.toList = token ++ rest ∧ token.map Char.toLower = version.toList ∧
    ∀ c ∈ rest.head?, c = ' '

theorem eq_space_of_toLower {c : Char} (h : c.toLower = ' ') : c = ' ' := by
  unfold Char.toLower at h
  split at h
  · rename_i hu
    -- a capital is beyond the space, and its small letter even more so
    have value : (c.val + ('a'.val - 'A'.val)).toNat = 32 := congrArg Char.toNat h
    have lower := UInt32.le_iff_toNat_le.mp hu.1
    have upper := UInt32.le_iff_toNat_le.mp hu.2
    rw [UInt32.toNat_add] at value
    simp at value lower upper
    omega
  · exact h

theorem isPolicy_iff {text : String} : isPolicy text = true ↔ HasVersion text := by
  simp only [isPolicy, toList_lower, Bool.or_eq_true, decide_eq_true_eq, List.isPrefixOf_iff_prefix]
  constructor
  · rintro (h | ⟨rest, h⟩)
    · exact ⟨text.toList, [], (List.append_nil _).symm, h, nofun⟩
    · rw [List.append_assoc] at h
      -- the text falls apart where its small letters do
      obtain ⟨token, behind, hs, ht, hb⟩ := List.map_eq_append_iff.mp h.symm
      refine ⟨token, behind, hs, ht, ?_⟩
      cases behind with
      | nil => exact nofun
      | cons c behind =>
        rintro _ ⟨rfl⟩
        exact eq_space_of_toLower (List.cons.inj hb).1
  · rintro ⟨token, rest, hs, ht, hr⟩
    rw [hs, List.map_append, ht]
    cases rest with
    | nil => exact .inl (List.append_nil _)
    | cons c rest =>
      rw [hr c rfl]
      exact .inr ⟨rest.map Char.toLower, by simp⟩

/-! ## Terms in order -/

/-- The directive of a term, if it is one. -/
def Term.directive? : Term → Option Directive
  | directive d => some d
  | modifier _ => none

/-- The modifier of a term, if it is one. -/
def Term.modifier? : Term → Option Modifier
  | directive _ => none
  | modifier m => some m

/-- The record with further terms behind its own. -/
def extended (record : Record) (terms : List Term) : Record :=
  { record with
    directives := record.directives ++ terms.filterMap Term.directive?
    modifiers := record.modifiers ++ terms.filterMap Term.modifier? }

/-- The record of terms in order. -/
def ofTerms (text : String) (terms : List Term) : Record where
  text := text
  directives := terms.filterMap Term.directive?
  modifiers := terms.filterMap Term.modifier?
  decorations := []

theorem extended_cons (record : Record) (term : Term) (terms : List Term) :
    record.extended (term :: terms) = (record.extended [term]).extended terms := by
  have split {α : Type} (f : Term → Option α) :
      (term :: terms).filterMap f = [term].filterMap f ++ terms.filterMap f :=
    List.filterMap_append (l := [term])
  simp only [extended, split, List.append_assoc]

theorem IsSingle.of_extended {record : Record} {terms : List Term}
    (h : (record.extended terms).IsSingle) : record.IsSingle :=
  (List.pairwise_append.mp h).1

/-- A term is added to a record unless it repeats a modifier that may stand once. -/
theorem insert_eq_ok_iff {before after : Record} {term : Term} (hb : before.IsSingle) :
    before.insert term = .ok after ↔ after = before.extended [term] ∧ after.IsSingle := by
  cases term with
  | directive d =>
    have same : before.insert (.directive d) = .ok (before.extended [.directive d]) := by
      simp [Record.insert, extended, Term.directive?, Term.modifier?]
    have single : (before.extended [.directive d]).IsSingle := hb.insert same
    rw [same, Except.ok.injEq]
    constructor
    · rintro rfl
      exact ⟨rfl, single⟩
    · rintro ⟨rfl, -⟩
      rfl
  | modifier m =>
    have same : before.extended [.modifier m] =
        { before with modifiers := before.modifiers ++ [m] } := by
      simp [extended, Term.directive?, Term.modifier?]
    rw [same]
    constructor
    · intro h
      refine ⟨?_, hb.insert h⟩
      unfold Record.insert at h
      dsimp only at h
      split at h
      · cases h
      · cases h
        rfl
    · rintro ⟨rfl, hs⟩
      -- the new modifier comes last, so it is the second of every pair that it is in
      have unrepeated : before.modifiers.any m.clashes ≠ true := by
        intro hc
        obtain ⟨m', hm, hc⟩ := List.any_eq_true.mp hc
        have := (List.pairwise_append.mp hs).2.2 m' hm m (List.mem_singleton.mpr rfl)
        rw [Modifier.clashes_comm, hc] at this
        cases this
      exact if_neg unrepeated

/-- Tokens are read in order, each behind the terms of those in front of it. -/
theorem foldlM_eq_ok_iff {read : List (List Char)} {before record : Record}
    (hb : before.IsSingle) :
    read.foldlM (fun record token => Term.read token >>= record.insert) before = .ok record ↔
      ∃ terms, List.Forall₂ Term.Written read terms ∧ record = before.extended terms ∧
        record.IsSingle := by
  -- on the tokens; the record in front of them repeats nothing
  induction read generalizing before with
  | nil =>
    have unchanged : before.extended [] = before := by simp [extended]
    constructor
    · rintro ⟨⟩
      exact ⟨[], .nil, unchanged.symm, hb⟩
    · rintro ⟨terms, ht, rfl, -⟩
      cases ht
      rw [unchanged]
      rfl
  | cons token read ih =>
    rw [List.foldlM_cons]
    constructor
    · intro h
      obtain ⟨after, ha, h⟩ := Error.bind_eq_ok_iff.mp h
      obtain ⟨term, ht, hi⟩ := Error.bind_eq_ok_iff.mp ha
      obtain ⟨rfl, hs⟩ := (insert_eq_ok_iff hb).mp hi
      obtain ⟨terms, hts, rfl, hr⟩ := (ih hs).mp h
      exact ⟨term :: terms, .cons (read_eq_ok_iff.mp ht) hts, (extended_cons ..).symm, hr⟩
    · rintro ⟨terms, ht, whole, hr⟩
      cases ht with
      | @cons _ term _ terms ht hts =>
        -- a record without repetitions has none in front of any of its terms
        rw [extended_cons] at whole
        have hs : (before.extended [term]).IsSingle := (whole ▸ hr).of_extended
        have hi := (insert_eq_ok_iff hb).mpr ⟨rfl, hs⟩
        exact Error.bind_eq_ok_iff.mpr
          ⟨_, Error.bind_eq_ok_iff.mpr ⟨term, read_eq_ok_iff.mpr ht, hi⟩,
            (ih hs).mpr ⟨terms, hts, whole, hr⟩⟩

/-- Tokens that are refused are refused for good. -/
theorem result_of_foldlM {read : List (List Char)} {before : Record} {cause : Error}
    (h : read.foldlM (fun record token => Term.read token >>= record.insert) before =
      .error cause) : cause.result = .permError := by
  induction read generalizing before with
  | nil => cases h
  | cons token read ih =>
    rw [List.foldlM_cons] at h
    rcases Error.bind_eq_error_iff.mp h with ha | ⟨after, -, h⟩
    · rcases Error.bind_eq_error_iff.mp ha with ht | ⟨term, -, hi⟩
      · exact result_of_read ht
      · unfold Record.insert at hi
        split at hi
        · cases hi
        · split at hi
          · cases hi
            rfl
          · cases hi
    · exact ih h

/-! ## Records -/

/-- A record is read when its tokens are written as terms that repeat no modifier of theirs. -/
theorem parse_eq_ok_iff {text : String} {record : Record} : parse text = .ok record ↔
    HasVersion text ∧ ∃ terms, List.Forall₂ Term.Written (tokens text) terms ∧
      record = ofTerms text terms ∧ record.IsSingle := by
  rw [← isPolicy_iff, parse]
  split
  · rename_i hv
    have start : (empty text).IsSingle := List.Pairwise.nil
    have whole : ∀ terms, (empty text).extended terms = ofTerms text terms := fun terms => rfl
    simp only [foldlM_eq_ok_iff start, whole, hv, true_and]
  · rename_i hv
    simp [hv]

/-- What is refused without the version token is no record, and otherwise it is refused for good. -/
theorem result_of_parse {text : String} {cause : Error} (h : parse text = .error cause) :
    ¬ HasVersion text ∧ cause.result = .none ∨ HasVersion text ∧ cause.result = .permError := by
  rw [← isPolicy_iff]
  unfold parse at h
  split at h
  · rename_i hv
    exact .inr ⟨hv, result_of_foldlM h⟩
  · rename_i hv
    cases h
    exact .inl ⟨hv, rfl⟩

/-- A text is accepted exactly when it has the version token, every token behind it is written as a
term, and no modifier is repeated that may stand once. Without the version token a text is no
record; every other text is refused for good. -/
theorem parse_eq_iff (text : String) :
    ((∃ cause, parse text = .error cause ∧ cause.result = .none) ↔ ¬ HasVersion text) ∧
    (∀ record, parse text = .ok record ↔
      HasVersion text ∧ ∃ terms, List.Forall₂ Term.Written (tokens text) terms ∧
        record = ofTerms text terms ∧ record.IsSingle) ∧
    ((∃ cause, parse text = .error cause ∧ cause.result = .permError) ↔
      HasVersion text ∧ ¬ ∃ terms, List.Forall₂ Term.Written (tokens text) terms ∧
        (ofTerms text terms).IsSingle) := by
  have accepted : (∃ record, parse text = .ok record) ↔ HasVersion text ∧
      ∃ terms, List.Forall₂ Term.Written (tokens text) terms ∧ (ofTerms text terms).IsSingle := by
    constructor
    · rintro ⟨record, h⟩
      obtain ⟨hv, terms, ht, rfl, hs⟩ := parse_eq_ok_iff.mp h
      exact ⟨hv, terms, ht, hs⟩
    · rintro ⟨hv, terms, ht, hs⟩
      exact ⟨_, parse_eq_ok_iff.mpr ⟨hv, terms, ht, rfl, hs⟩⟩
  refine ⟨?_, fun record => parse_eq_ok_iff, ?_⟩
  · cases hp : parse text with
    | ok record =>
      have hv := (parse_eq_ok_iff.mp hp).1
      simp [hv]
    | error cause =>
      rcases result_of_parse hp with ⟨hv, hr⟩ | ⟨hv, hr⟩
      · simp [hv, hr]
      · simp [hv, hr]
  · cases hp : parse text with
    | ok record =>
      have ⟨hv, ht⟩ := accepted.mp ⟨record, hp⟩
      simp [ht]
    | error cause =>
      rcases result_of_parse hp with ⟨hv, hr⟩ | ⟨hv, hr⟩
      · simp [hv, hr]
      -- no terms are written by the tokens, or the text would be accepted
      · have refused : ¬ ∃ record, parse text = .ok record := by
          rw [hp]
          rintro ⟨record, ⟨⟩⟩
        rw [accepted] at refused
        exact ⟨fun _ => ⟨hv, fun ht => refused ⟨hv, ht⟩⟩, fun _ => ⟨cause, rfl, hr⟩⟩

end SenderPolicy.Record
