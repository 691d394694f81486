import SenderPolicy.Macro.Expansion
import SenderPolicy.Proofs.Text.Case

/-!
# Letter case in expansions

Cells cut their values at characters that are no letters, and escape octets that are no letters, so
a template comes to alike texts with alike values, and is refused for one reason if it is refused.

## Main definitions

* `Values.Alike`: values that differ in letter case, where they come from the identities

## Main results

* `alike_transform`: alike values of a cell
* `expand_alike`: what a template comes to with alike values
-/

namespace SenderPolicy.Macro

open Text

/-- The values that come from the identities are alike; the others are the same. -/
structure Values.Alike (v w : Values) : Prop where
  address : w.address = v.address
  sender : Text.Alike v.sender w.sender
  localPart : Text.Alike v.localPart w.localPart
  senderDomain : Text.Alike v.senderDomain w.senderDomain
  helo : Text.Alike v.helo w.helo
  domain : Text.Alike v.domain w.domain
  family : w.family = v.family
  readableAddress : w.readableAddress = v.readableAddress
  clientDomain : w.clientDomain = v.clientDomain
  receivingDomain : w.receivingDomain = v.receivingDomain
  timestamp : w.timestamp = v.timestamp

/-! ## Results that are alike -/

section Results

variable {ε α β : Type}

/-- Two computations fail for one reason, or come to values that are one after a reading. -/
theorem cases_of_map_eq {r : α → β} {x y : Except ε α} (h : x.map r = y.map r) :
    (∃ e, x = .error e ∧ y = .error e) ∨ ∃ a b, x = .ok a ∧ y = .ok b ∧ r a = r b := by
  cases x with
  | error e =>
    cases y with
    | error e' => exact .inl ⟨e, rfl, by rw [Except.error.inj h]⟩
    | ok b => cases h
  | ok a =>
    cases y with
    | error e => cases h
    | ok b => exact .inr ⟨a, b, rfl, rfl, Except.ok.inj h⟩

theorem mapM_map_eq {r : α → β} {ι : Type} {f g : ι → Except ε α}
    (h : ∀ i, (f i).map r = (g i).map r) (is : List ι) :
    (is.mapM f).map (List.map r) = (is.mapM g).map (List.map r) := by
  induction is with
  | nil => rfl
  | cons i is ih =>
    rw [List.mapM_cons, List.mapM_cons]
    rcases cases_of_map_eq (h i) with ⟨e, hf, hg⟩ | ⟨a, b, hf, hg, same⟩
    · rw [hf, hg]
      rfl
    · rcases cases_of_map_eq ih with ⟨e, hf', hg'⟩ | ⟨as, bs, hf', hg', same'⟩
      · rw [hf, hg, hf', hg']
        rfl
      · rw [hf, hg, hf', hg']
        exact congrArg Except.ok (by rw [List.map_cons, List.map_cons, same, same'])

end Results

/-! ## Cells -/

theorem toLower_eq_of_isDelimiter {d : Char} (hd : isDelimiter d = true) (c : Char) :
    c.toLower = d ↔ c = d := by
  simp only [isDelimiter, Bool.or_eq_true, decide_eq_true_eq] at hd
  rcases hd with (((((rfl | rfl) | rfl) | rfl) | rfl) | rfl) | rfl <;>
    exact toLower_eq_iff rfl (by decide) c

/-- A cell that is read cuts its value at characters that are no letters. -/
theorem isDelimiter_of_read {content : List Char} {cell : Cell}
    (h : Cell.read content = some cell) : ∀ d ∈ cell.separators, isDelimiter d = true := by
  have written := Cell.written_of_read h
  unfold Cell.separators
  split
  · exact List.forall_mem_singleton.mpr rfl
  · cases written with
    | forward _ _ hs => exact hs
    | reversed _ _ _ hs => exact hs

theorem keepLast_map {α β : Type} (f : α → β) (digits : List Char) (ps : List α) :
    keepLast digits (ps.map f) = (keepLast digits ps).map (List.map f) := by
  unfold keepLast
  split
  · rfl
  · split
    · rfl
    · rw [List.length_map, ← List.map_drop]
      rfl

theorem alike_transform {cell : Cell} (hs : ∀ d ∈ cell.separators, isDelimiter d = true)
    {s t : String} (h : Alike s t) :
    (cell.transform s).map lower = (cell.transform t).map lower := by
  have cut (c : Char) : cell.separators.contains c.toLower = cell.separators.contains c := by
    rw [Bool.eq_iff_iff, List.contains_iff_mem, List.contains_iff_mem]
    constructor
    · intro hm
      rwa [(toLower_eq_of_isDelimiter (hs _ hm) c).mp rfl]
    · intro hm
      rwa [(toLower_eq_of_isDelimiter (hs c hm) c).mpr rfl]
  have parts (cs : List Char) :
      cell.parts (cs.map Char.toLower) = (cell.parts cs).map (List.map Char.toLower) := by
    simp only [Cell.parts, pieces_map cut]
    split
    · rw [List.map_reverse]
    · rfl
  -- the parts of both values are the same in lower case
  have kept : (keepLast cell.digits (cell.parts s.toList)).map (List.map (List.map Char.toLower)) =
      (keepLast cell.digits (cell.parts t.toList)).map (List.map (List.map Char.toLower)) := by
    rw [← keepLast_map, ← keepLast_map, ← parts, ← parts, alike_iff.mp h]
  have dotted (ps : List (List Char)) : (joined ['.'] ps).map Char.toLower =
      joined ['.'] (ps.map (List.map Char.toLower)) := (@joined_map _ _ Char.toLower ['.'] ps).symm
  unfold Cell.transform
  rcases cases_of_map_eq kept with ⟨e, hk, hk'⟩ | ⟨ps, qs, hk, hk', same⟩
  · rw [hk, hk']
  · rw [hk, hk']
    refine congrArg Except.ok (alike_ofList.mpr ?_)
    rw [dotted, dotted, same]

section Expansions

variable {v w : Values} (localNames : List String) (site : Site)

theorem ofLetter_alike (h : v.Alike w) (letter : Char) :
    (v.ofLetter localNames site letter).map lower =
      (w.ofLetter localNames site letter).map lower := by
  obtain ⟨address, sender, localPart, senderDomain, helo, domain, family, readable, client,
    receiver, timestamp⟩ := h
  unfold Values.ofLetter
  rw [address, family, readable, client, receiver, timestamp]
  split
  case h_2 => exact congrArg Except.ok sender
  case h_3 => exact congrArg Except.ok localPart
  case h_4 => exact congrArg Except.ok senderDomain
  case h_5 => exact congrArg Except.ok helo
  case h_6 => exact congrArg Except.ok domain
  all_goals rfl

theorem expandCell_alike (h : v.Alike w) (content : List Char) :
    (expandCell v localNames site content).map lower =
      (expandCell w localNames site content).map lower := by
  unfold expandCell
  cases hr : Cell.read content with
  | none => rfl
  | some cell =>
    dsimp only
    rcases cases_of_map_eq (ofLetter_alike localNames site h cell.letter) with
      ⟨e, hv, hw⟩ | ⟨s, t, hv, hw, alike⟩
    · rw [hv, hw]
    · rw [hv, hw]
      dsimp only
      rcases cases_of_map_eq (alike_transform (isDelimiter_of_read hr) alike) with
        ⟨e, hs, ht⟩ | ⟨s', t', hs, ht, alike'⟩
      · rw [hs, ht]
      · rw [hs, ht]
        dsimp only
        split
        · exact congrArg Except.ok (alike_escape alike')
        · exact congrArg Except.ok alike'

theorem expandPiece_alike (h : v.Alike w) (template : String) :
    (expandPiece v localNames site template).map lower =
      (expandPiece w localNames site template).map lower := by
  have elementwise (e : Element) : (expandElement v localNames site template e).map lower =
      (expandElement w localNames site template e).map lower := by
    cases e with
    | cell content => exact expandCell_alike localNames site h content
    | _ => rfl
  unfold expandPiece
  rcases cases_of_map_eq (mapM_map_eq elementwise (elements template.toList)) with
    ⟨e, hv, hw⟩ | ⟨ps, qs, hv, hw, same⟩
  · rw [hv, hw]
  · rw [hv, hw]
    exact congrArg Except.ok (alike_join same)

/-- A template comes to alike texts with alike values, or has the same obstacle. -/
theorem expand_alike (h : v.Alike w) (template : String) :
    (expand v localNames site template).map lower =
      (expand w localNames site template).map lower := by
  cases site with
  | domain =>
    simp only [expand]
    rcases cases_of_map_eq (expandPiece_alike localNames .domain h template) with
      ⟨e, hv, hw⟩ | ⟨s, t, hv, hw, alike⟩
    · rw [hv, hw]
    · rw [hv, hw]
      exact congrArg Except.ok (Domain.alike_shorten alike)
  | explanation =>
    simp only [expand]
    rcases cases_of_map_eq (mapM_map_eq (expandPiece_alike localNames .explanation h)
      ((splitOn ' ' template).filter (· ≠ ""))) with ⟨e, hv, hw⟩ | ⟨ps, qs, hv, hw, same⟩
    · rw [hv, hw]
    · rw [hv, hw]
      exact congrArg Except.ok (alike_join same)

end Expansions

end SenderPolicy.Macro
