import Mathlib.Data.List.Induction
import Mathlib.Data.Nat.Digits.Defs
import SenderPolicy.Macro.Transform
import SenderPolicy.Proofs.Address.Literals
import SenderPolicy.Proofs.Domain.Shortening

/-!
# Laws of cells

A cell cuts its value at its separators, keeps the last pieces in the order that it puts them in, and
joins them by dots. A value that is cut at dots is put together again, so without digits a cell
leaves it as it is, or has its labels in reverse; and the labels that digits keep are a rest of the
value.

## Main definitions

* `Cut`: the pieces of a text between its separators
* `Cell.count`: the number that the digits of a cell denote
* `Cell.TransformLaws`: the laws of a cell, given the pieces of the value

## Main results

* `cut_iff`: a text is cut in one way
* `transform_reversed`, `transform_forward`: what a cell makes of labels
* `transform_lawful`: every cell obeys the laws, whatever the value
-/

namespace SenderPolicy

open Text

/-! ## Pieces of a text -/

namespace Text

variable {seps cs : List Char} {ps : List (List Char)}

/-- A text is cut at its separators: there is one behind each piece but the last, and none within a
piece. -/
inductive Cut (seps : List Char) : List Char → List (List Char) → Prop
  | last {piece : List Char} (whole : ∀ c ∈ piece, c ∉ seps) : Cut seps piece [piece]
  | next {piece behind : List Char} {sep : Char} {ps : List (List Char)}
      (whole : ∀ c ∈ piece, c ∉ seps) (hs : sep ∈ seps) (rest : Cut seps behind ps) :
      Cut seps (piece ++ sep :: behind) (piece :: ps)

theorem Cut.pieces_eq (h : Cut seps cs ps) : pieces seps.contains cs = ps := by
  induction h with
  | last whole => exact pieces_of_forall (by simpa using whole)
  | next whole hs _ ih => rw [pieces_append_cons (by simpa using whole) (by simpa using hs), ih]

/-- Every text can be cut. -/
theorem exists_cut (seps cs : List Char) : ∃ ps, Cut seps cs ps := by
  induction cs with
  | nil => exact ⟨_, .last (List.forall_mem_nil _)⟩
  | cons c cs ih =>
    obtain ⟨ps, h⟩ := ih
    by_cases hc : c ∈ seps
    · have cut : Cut seps ([] ++ c :: cs) ([] :: ps) := .next nofun hc h
      exact ⟨_, cut⟩
    · -- the first piece is longer by the character
      cases h with
      | last whole => exact ⟨_, .last (List.forall_mem_cons.mpr ⟨hc, whole⟩)⟩
      | next whole hs rest => exact ⟨_, .next (List.forall_mem_cons.mpr ⟨hc, whole⟩) hs rest⟩

/-- A text is cut into its pieces, and in no other way. -/
theorem cut_iff : Cut seps cs ps ↔ pieces seps.contains cs = ps := by
  constructor
  · exact Cut.pieces_eq
  · rintro rfl
    obtain ⟨ps, h⟩ := exists_cut seps cs
    rwa [h.pieces_eq]

theorem Cut.not_mem (h : Cut seps cs ps) : ∀ p ∈ ps, ∀ c ∈ p, c ∉ seps := by
  induction h with
  | last whole => exact List.forall_mem_singleton.mpr whole
  | next whole _ _ ih => exact List.forall_mem_cons.mpr ⟨whole, ih⟩

end Text

/-! ## Labels of joined labels -/

namespace Domain

theorem labels_eq_pieces (name : List Char) : labels name = pieces ['.'].contains name := by
  have dots : ['.'].contains = fun c => decide (c = '.') := by
    funext c
    simp
  rw [dots, labels]

theorem dot_not_mem_of_mem_labels {name label : List Char} (h : label ∈ labels name) :
    '.' ∉ label := by
  rw [labels_eq_pieces] at h
  intro dot
  exact (cut_iff.mpr rfl).not_mem label h '.' dot (List.mem_singleton.mpr rfl)

/-- Labels of a name that are joined, some of them or all and in any order, are found again. -/
theorem labels_joined {name : List Char} {ls : List (List Char)} (hn : ls ≠ [])
    (h : ls ⊆ labels name) : labels (joined ['.'] ls) = ls :=
  pieces_joined hn fun _ hl => dot_not_mem_of_mem_labels (h hl)

end Domain

namespace Macro

open Domain

/-! ## Digits -/

/-- The number that the digits of a cell denote, with the last of them for the ones. -/
def Cell.count (cell : Cell) : Nat :=
  Nat.ofDigits 10 (cell.digits.reverse.map digitValue)

theorem digitsValue_eq_ofDigits (digits : List Char) :
    digitsValue 10 digits = Nat.ofDigits 10 (digits.reverse.map digitValue) := by
  induction digits using List.reverseRecOn with
  | nil => rfl
  | append_singleton digits d ih =>
    rw [Address.digitsValue_concat, ih, List.reverse_append, List.reverse_singleton,
      List.singleton_append, List.map_cons, Nat.ofDigits_cons, Nat.add_comm]

variable {cell : Cell} {value : String}

theorem Cell.digitsValue_digits (cell : Cell) : digitsValue 10 cell.digits = cell.count :=
  digitsValue_eq_ofDigits cell.digits

theorem Cell.digits_ne_nil (h : 0 < cell.count) : cell.digits ≠ [] := by
  intro hd
  rw [count, hd] at h
  exact absurd h (by decide)

/-! ## Pieces that are kept -/

/-- The pieces of a value in the order of a cell. -/
def Cell.ordered (cell : Cell) (ps : List (List Char)) : List (List Char) :=
  if cell.isReversed then ps.reverse else ps

theorem Cell.length_ordered (cell : Cell) (ps : List (List Char)) :
    (cell.ordered ps).length = ps.length := by
  unfold ordered
  split
  · exact List.length_reverse
  · rfl

theorem Cell.parts_ne_nil (cell : Cell) (cs : List Char) : cell.parts cs ≠ [] := by
  intro h
  have none := congrArg List.length h
  have some := List.length_pos_iff.mpr (pieces_ne_nil cell.separators.contains cs)
  rw [show cell.parts cs = cell.ordered (pieces cell.separators.contains cs) from rfl,
    length_ordered, List.length_nil] at none
  omega

theorem transform_of_nil (h : cell.digits = []) : cell.transform value =
    .ok (String.ofList (joined ['.'] (cell.parts value.toList))) := by
  rw [Cell.transform, keepLast, if_pos h]
  rfl

theorem transform_of_pos (h : 0 < cell.count) : cell.transform value =
    .ok (String.ofList (joined ['.'] ((cell.parts value.toList).drop
      ((cell.parts value.toList).length - cell.count)))) := by
  rw [Cell.transform, keepLast, if_neg (Cell.digits_ne_nil h), cell.digitsValue_digits,
    if_neg (by omega)]
  rfl

theorem transform_eq_error_of_count_iff {cause : Error} : cell.transform value = .error cause ↔
    (cell.digits ≠ [] ∧ cell.count = 0) ∧ cause = .keepsNoPart := by
  by_cases hd : cell.digits = []
  · rw [transform_of_nil hd]
    simp [hd]
  · rcases Nat.eq_zero_or_pos cell.count with hc | hc
    · rw [Cell.transform, keepLast, if_neg hd, cell.digitsValue_digits, if_pos hc]
      simp [Except.map, hd, hc, eq_comm]
    · rw [transform_of_pos hc]
      simp [Nat.ne_of_gt hc]

/-! ## Labels that are kept -/

/-- A cell cuts its value at dots, whether it says so or not. -/
def Cell.CutsLabels (cell : Cell) : Prop :=
  cell.separators = ['.']

theorem Cell.CutsLabels.parts_eq (h : cell.CutsLabels) (cs : List Char) :
    cell.parts cs = cell.ordered (labels cs) := by
  rw [parts, ordered, labels_eq_pieces, show cell.separators = ['.'] from h]

/-- In order, the labels that are kept are the last of the value. -/
theorem transform_forward (hl : cell.CutsLabels) (hr : cell.isReversed = false)
    (hc : 0 < cell.count) : cell.transform value = .ok (String.ofList (joined ['.']
      ((labels value.toList).drop ((labels value.toList).length - cell.count)))) := by
  rw [transform_of_pos hc, hl.parts_eq, Cell.ordered, hr]
  rfl

/-- In reverse, the labels that are kept are the first of the value. -/
theorem transform_reversed (hl : cell.CutsLabels) (hr : cell.isReversed = true)
    (hc : 0 < cell.count) : cell.transform value = .ok (String.ofList (joined ['.']
      ((labels value.toList).take cell.count).reverse)) := by
  have first : (labels value.toList).take
      ((labels value.toList).length - ((labels value.toList).length - cell.count)) =
      (labels value.toList).take cell.count := by
    rw [Nat.sub_sub_eq_min, Nat.min_comm, ← List.take_eq_take_min]
  rw [transform_of_pos hc, hl.parts_eq, Cell.ordered, if_pos hr, List.length_reverse,
    List.drop_reverse, first]

/-! ## The laws -/

/-- The laws of a cell and of a value that is cut into the given pieces. -/
structure Cell.TransformLaws (cell : Cell) (value : String) (ps : List (List Char)) : Prop where
  /-- The pieces are those between the separators. -/
  cut : Cut cell.separators value.toList ps
  /-- The value is refused if the digits denote zero, and only then. -/
  refused (cause : Error) : cell.transform value = .error cause ↔
    (cell.digits ≠ [] ∧ cell.count = 0) ∧ cause = .keepsNoPart
  /-- Without digits all pieces are kept. -/
  uncounted : cell.digits = [] →
    cell.transform value = .ok (String.ofList (joined ['.'] (cell.ordered ps)))
  /-- Digits keep as many of the last pieces as they say, or all of them if the number is larger. -/
  counted : 0 < cell.count → ∃ dropped kept, cell.ordered ps = dropped ++ kept ∧
    kept.length = min cell.count ps.length ∧
      cell.transform value = .ok (String.ofList (joined ['.'] kept))
  /-- A number of all pieces or of more changes nothing. -/
  ample : ps.length ≤ cell.count →
    cell.transform value = { cell with digits := [] }.transform value
  /-- A cell that cuts labels and says nothing else leaves the value as it is. -/
  identity : cell.CutsLabels → cell.isReversed = false → cell.digits = [] →
    cell.transform value = .ok value
  /-- Labels that are reversed twice, with none of them dropped, are the value again. -/
  involution : cell.CutsLabels → cell.isReversed = true →
    cell.digits = [] ∨ ps.length ≤ cell.count →
      (cell.transform value).bind cell.transform = .ok value
  /-- Of labels that are reversed twice, as many of the first are left as the digits say. -/
  reversed : cell.CutsLabels → cell.isReversed = true → 0 < cell.count →
    (cell.transform value).bind cell.transform =
      .ok (String.ofList (joined ['.'] (ps.take cell.count)))
  /-- The labels that digits keep in order are the one rest of the value with as many labels. -/
  rest : cell.CutsLabels → cell.isReversed = false → 0 < cell.count → ∀ text : String,
    cell.transform value = .ok text ↔ IsRest '.' text.toList value.toList ∧
      (labels text.toList).length = min cell.count (labels value.toList).length

theorem transform_counted (h : 0 < cell.count) : ∃ dropped kept,
    cell.parts value.toList = dropped ++ kept ∧
      kept.length = min cell.count (cell.parts value.toList).length ∧
        cell.transform value = .ok (String.ofList (joined ['.'] kept)) := by
  refine ⟨_, _, (List.take_append_drop _ _).symm, ?_, transform_of_pos h⟩
  rw [List.length_drop]
  omega

theorem transform_ample (h : (cell.parts value.toList).length ≤ cell.count) :
    cell.transform value = { cell with digits := [] }.transform value := by
  have counted : 0 < cell.count :=
    Nat.lt_of_lt_of_le (List.length_pos_iff.mpr (cell.parts_ne_nil value.toList)) h
  rw [transform_of_pos counted, Nat.sub_eq_zero_of_le h, List.drop_zero]
  rfl

/-- Labels that are all kept in order are the value. -/
theorem transform_identity (hl : cell.CutsLabels) (hr : cell.isReversed = false)
    (hd : cell.digits = []) : cell.transform value = .ok value := by
  have inOrder : cell.parts value.toList = labels value.toList := by
    rw [hl.parts_eq, Cell.ordered, hr]
    rfl
  rw [transform_of_nil hd, inOrder, joined_labels, String.ofList_toList]

/-- Of labels that are reversed twice the first are left, in order. -/
theorem transform_reversed_twice (hl : cell.CutsLabels) (hr : cell.isReversed = true)
    (hc : 0 < cell.count) : (cell.transform value).bind cell.transform =
      .ok (String.ofList (joined ['.'] ((labels value.toList).take cell.count))) := by
  have kept : ((labels value.toList).take cell.count).reverse ≠ [] := by
    rw [Ne, List.reverse_eq_nil_iff, List.take_eq_nil_iff, not_or]
    exact ⟨Nat.ne_of_gt hc, pieces_ne_nil _ _⟩
  have found := labels_joined kept fun label h =>
    List.mem_of_mem_take (List.mem_reverse.mp h)
  rw [transform_reversed hl hr hc]
  show cell.transform _ = _
  rw [transform_reversed hl hr hc, String.toList_ofList, found,
    List.take_of_length_le (by rw [List.length_reverse]; exact List.length_take_le _ _),
    List.reverse_reverse]

/-- Labels that are reversed twice are the value again. -/
theorem transform_involution (hl : cell.CutsLabels) (hr : cell.isReversed = true)
    (h : cell.digits = [] ∨ (labels value.toList).length ≤ cell.count) :
    (cell.transform value).bind cell.transform = .ok value := by
  have all : String.ofList (joined ['.'] (labels value.toList)) = value := by
    rw [joined_labels, String.ofList_toList]
  rcases h with hd | hc
  · have kept : (labels value.toList).reverse ≠ [] := by
      rw [Ne, List.reverse_eq_nil_iff]
      exact pieces_ne_nil _ _
    have found := labels_joined kept fun label h => List.mem_reverse.mp h
    rw [transform_of_nil hd, hl.parts_eq, Cell.ordered, if_pos hr]
    show cell.transform _ = _
    rw [transform_of_nil hd, hl.parts_eq, Cell.ordered, if_pos hr, String.toList_ofList, found,
      List.reverse_reverse, all]
  · have counted : 0 < cell.count :=
      Nat.lt_of_lt_of_le (List.length_pos_iff.mpr (pieces_ne_nil _ _)) hc
    rw [transform_reversed_twice hl hr counted, List.take_of_length_le hc, all]

/-- Of the rests of a value that begin with a label there is one for each number of labels. -/
theorem transform_eq_ok_iff_rest (hl : cell.CutsLabels) (hr : cell.isReversed = false)
    (hc : 0 < cell.count) (text : String) : cell.transform value = .ok text ↔
      IsRest '.' text.toList value.toList ∧
        (labels text.toList).length = min cell.count (labels value.toList).length := by
  have some := List.length_pos_iff.mpr (pieces_ne_nil (· = '.') value.toList)
  rw [transform_forward hl hr hc, Except.ok.injEq]
  constructor
  · rintro rfl
    have last := List.drop_suffix ((labels value.toList).length - cell.count) (labels value.toList)
    have kept : (labels value.toList).drop ((labels value.toList).length - cell.count) ≠ [] := by
      rw [Ne, List.drop_eq_nil_iff]
      exact Nat.not_le_of_lt (Nat.sub_lt some hc)
    rw [String.toList_ofList, labels_joined kept last.subset, List.length_drop]
    exact ⟨isRest_joined kept last, by omega⟩
  · rintro ⟨rest, count⟩
    -- the last labels are determined by their number
    have last := List.suffix_iff_eq_drop.mp (isRest_iff.mp rest)
    have dropped : (labels value.toList).length - min cell.count (labels value.toList).length =
        (labels value.toList).length - cell.count := by
      omega
    rw [count, dropped] at last
    rw [← last, joined_labels, String.ofList_toList]

/-- Every cell obeys the laws, with every value. -/
theorem transform_lawful (cell : Cell) (value : String) :
    ∃ ps, cell.TransformLaws value ps := by
  have cutsLabels (h : cell.CutsLabels) :
      pieces cell.separators.contains value.toList = labels value.toList := by
    rw [labels_eq_pieces, show cell.separators = ['.'] from h]
  have length : (cell.parts value.toList).length =
      (pieces cell.separators.contains value.toList).length := cell.length_ordered _
  exact ⟨pieces cell.separators.contains value.toList, {
    cut := cut_iff.mpr rfl
    refused := fun _ => transform_eq_error_of_count_iff
    uncounted := transform_of_nil
    counted := fun h => length ▸ transform_counted h
    ample := fun h => transform_ample (length ▸ h)
    identity := transform_identity
    involution := fun hl hr h => transform_involution hl hr (cutsLabels hl ▸ h)
    reversed := fun hl hr hc => cutsLabels hl ▸ transform_reversed_twice hl hr hc
    rest := transform_eq_ok_iff_rest }⟩

/-- Of labels that are reversed and dropped the first are left. -/
example : (Cell.transform ⟨'d', ['2'], true, []⟩ "a.b.c").bind
    (Cell.transform ⟨'d', ['2'], true, []⟩) = .ok "a.b" := by decide

end Macro

end SenderPolicy
