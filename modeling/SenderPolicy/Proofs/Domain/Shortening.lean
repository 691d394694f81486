import SenderPolicy.Domain
import SenderPolicy.Proofs.Text.Tails

/-!
# Names that are shortened

A name that is too long for a lookup loses its leading labels one by one, up to the dot behind each,
until what is left fits or is a single label. What is left is as much of the name as can be kept: of
all that stands behind its dots, the longest that fits. It does not matter whether the name is taken
for characters or for octets, because the octet of a dot is part of no other character.

## Main definitions

* `Shortened`: a name without as many leading labels as it takes to fit
* `KeepsMost`: the longest rest of a name that fits, or its last label if none does

## Main results

* `isRest_iff`: the last labels of a name are those of a rest of it
* `shorten_eq_iff`: shortening drops leading labels as long as it must
* `Shortened.keepsMost`, `KeepsMost.unique`: what is left is the longest rest that fits
* `shorten_keeps_most`: what shortening makes of every name
-/

namespace SenderPolicy.Domain

open Text

/-! ## Labels of rests -/

theorem labels_append {label : List Char} (h : '.' ∉ label) (rest : List Char) :
    labels (label ++ '.' :: rest) = label :: labels rest := by
  refine pieces_append_cons (fun c hc => ?_) (by simp)
  rw [decide_eq_false_iff_not]
  rintro rfl
  exact h hc

theorem labels_of_undotted {name : List Char} (h : '.' ∉ name) : labels name = [name] := by
  refine pieces_of_forall fun c hc => ?_
  rw [decide_eq_false_iff_not]
  rintro rfl
  exact h hc

/-- The last labels of a name, with the dots between them, are a rest of it. -/
theorem isRest_joined {ls : List (List Char)} {name : List Char} (hl : ls ≠ [])
    (h : ls <:+ labels name) : IsRest '.' (joined ['.'] ls) name := by
  obtain ⟨front, hf⟩ := h
  have whole := joined_labels name
  rw [← hf] at whole
  by_cases hn : front = []
  · rw [hn, List.nil_append] at whole
    exact .inl whole
  · rw [joined_append hn hl, List.append_assoc] at whole
    exact .inr ⟨joined ['.'] front, whole.symm⟩

/-- The last labels of a name are those of a rest of it. -/
theorem isRest_iff {name rest : List Char} :
    IsRest '.' rest name ↔ labels rest <:+ labels name := by
  constructor
  · rintro (rfl | ⟨front, rfl⟩)
    · exact List.suffix_refl _
    · exact ⟨labels front, (pieces_append (by simp) front rest).symm⟩
  · intro h
    have rested : IsRest '.' (joined ['.'] (labels rest)) name :=
      isRest_joined (pieces_ne_nil _ rest) h
    rwa [joined_labels] at rested

/-! ## Labels that are dropped -/

/-- A name without as many whole labels at its front as it takes to fit into a lookup, or to have no
dot. -/
inductive Shortened : List Char → List Char → Prop
  | fits {name : List Char} (h : octets name ≤ maxOctets ∨ '.' ∉ name) : Shortened name name
  | drop {label rest shortened : List Char} (undotted : '.' ∉ label)
      (exceeds : maxOctets < octets (label ++ '.' :: rest)) (more : Shortened rest shortened) :
      Shortened (label ++ '.' :: rest) shortened

/-- Dropping labels one by one comes to what shortening keeps. -/
theorem Shortened.joined_eq {name shortened : List Char} (h : Shortened name shortened) :
    joined ['.'] (shortenLabels (labels name)) = shortened := by
  induction h with
  | fits h =>
    rcases h with h | h
    · rw [shortenLabels_of_le (by rwa [joined_labels]), joined_labels]
    · rw [labels_of_undotted h]
      rfl
  | @drop label rest shortened undotted exceeds more ih =>
    have whole := joined_labels (label ++ '.' :: rest)
    obtain ⟨next, ls, hl⟩ := List.exists_cons_of_ne_nil (pieces_ne_nil (· = '.') rest)
    rw [labels_append undotted, labels, hl] at whole ⊢
    rw [shortenLabels_cons, if_neg (by rw [whole]; omega), ← hl]
    exact ih

/-- Every name can be shortened. -/
theorem exists_shortened (name : List Char) : ∃ shortened, Shortened name shortened := by
  induction hn : name.length using Nat.strongRecOn generalizing name with
  | ind n ih =>
    subst hn
    by_cases h : octets name ≤ maxOctets ∨ '.' ∉ name
    · exact ⟨name, .fits h⟩
    · rw [not_or, Decidable.not_not] at h
      obtain ⟨label, rest, rfl, undotted⟩ := List.eq_append_cons_of_mem h.2
      obtain ⟨shortened, more⟩ := ih rest.length
        (by simp only [List.length_append, List.length_cons]; omega) rest rfl
      exact ⟨shortened, .drop undotted (by omega) more⟩

/-- Shortening drops leading labels as long as it must. -/
theorem shorten_eq_iff {name shortened : String} :
    shorten name = shortened ↔ Shortened name.toList shortened.toList := by
  have unique {cs : List Char} (h : Shortened name.toList cs) : shorten name = String.ofList cs := by
    rw [shorten, h.joined_eq]
  constructor
  · rintro rfl
    obtain ⟨cs, h⟩ := exists_shortened name.toList
    rwa [unique h, String.toList_ofList]
  · intro h
    rw [unique h, String.ofList_toList]

/-- What is left fits, or is a single label. -/
theorem Shortened.fits_or_undotted {name shortened : List Char} (h : Shortened name shortened) :
    octets shortened ≤ maxOctets ∨ '.' ∉ shortened := by
  induction h with
  | fits h => exact h
  | drop _ _ _ ih => exact ih

/-! ## As much as can be kept -/

/-- Of the rests of a name, the longest that fits into a lookup; if none fits, the one behind the
last separator. -/
structure KeepsMost {α : Type} (sep : α) (size : List α → Nat) (name kept : List α) : Prop where
  isRest : IsRest sep kept name
  longest : ∀ rest, IsRest sep rest name → size rest ≤ maxOctets →
    size kept ≤ maxOctets ∧ size rest ≤ size kept
  last : (∀ rest, IsRest sep rest name → maxOctets < size rest) → sep ∉ kept

/-- Dropping one label after the other keeps as much as can be kept. -/
theorem Shortened.keepsMost {name shortened : List Char} (h : Shortened name shortened) :
    KeepsMost '.' octets name shortened := by
  induction h with
  | @fits name h =>
    refine ⟨.refl name, fun rest hr fits => ?_, fun none => ?_⟩
    · rcases h with h | undotted
      · exact ⟨h, octets_le_of_suffix hr.suffix⟩
      · rw [(isRest_iff_of_not_mem undotted).mp hr] at fits ⊢
        exact ⟨fits, Nat.le_refl _⟩
    · have exceeds := none name (.refl name)
      exact h.resolve_left (by omega)
  | @drop label rest shortened undotted exceeds more ih =>
    refine ⟨ih.isRest.append label, fun other ho fits => ?_, fun none => ?_⟩
    · -- the whole name does not fit, so only what stands behind its first label can
      rcases (isRest_append_iff undotted).mp ho with rfl | hr
      · omega
      · exact ih.longest other hr fits
    · exact ih.last fun other ho => none other (ho.append label)

/-- Only one rest keeps as much as can be kept. -/
theorem KeepsMost.unique {name kept kept' : List Char} (h : KeepsMost '.' octets name kept)
    (h' : KeepsMost '.' octets name kept') : kept = kept' := by
  by_cases fits : ∃ rest, IsRest '.' rest name ∧ octets rest ≤ maxOctets
  · obtain ⟨rest, hr, size⟩ := fits
    have fits := (h.longest rest hr size).1
    have fits' := (h'.longest rest hr size).1
    have front := suffix_of_octets_le h.isRest.suffix h'.isRest.suffix
      (h'.longest kept h.isRest fits).2
    have back := suffix_of_octets_le h'.isRest.suffix h.isRest.suffix
      (h.longest kept' h'.isRest fits').2
    exact front.eq_of_length (Nat.le_antisymm front.length_le back.length_le)
  · have none : ∀ rest, IsRest '.' rest name → maxOctets < octets rest := by
      intro rest hr
      exact Nat.lt_of_not_le fun size => fits ⟨rest, hr, size⟩
    -- neither has a dot, so neither has a rest but itself
    rcases List.suffix_or_suffix_of_suffix h.isRest.suffix h'.isRest.suffix with hs | hs
    · exact (isRest_iff_of_not_mem (h'.last none)).mp (h.isRest.of_suffix h'.isRest hs)
    · exact ((isRest_iff_of_not_mem (h.last none)).mp (h'.isRest.of_suffix h.isRest hs)).symm

/-- The octets that are kept are as many as can be kept behind the octet of a dot. -/
theorem KeepsMost.encode {name kept : List Char} (h : KeepsMost '.' octets name kept) :
    KeepsMost dotOctet List.length (encode name) (encode kept) := by
  refine ⟨isRest_encode_iff.mpr ⟨kept, rfl, h.isRest⟩, fun bs hb fits => ?_, fun none => ?_⟩
  · obtain ⟨rest, rfl, hr⟩ := isRest_encode_iff.mp hb
    rw [length_encode] at fits ⊢
    rw [length_encode]
    exact h.longest rest hr fits
  · rw [dotOctet_mem_encode_iff]
    refine h.last fun rest hr => ?_
    rw [← length_encode]
    exact none _ (isRest_encode_iff.mpr ⟨rest, rfl, hr⟩)

/-- With one label more, what is left would not fit. -/
theorem KeepsMost.exceeds {name kept label : List Char} (h : KeepsMost '.' octets name kept)
    (hl : label :: labels kept <:+ labels name) :
    maxOctets < octets (joined ['.'] (label :: labels kept)) := by
  refine Nat.lt_of_not_le fun fits => ?_
  have longest := (h.longest _ (isRest_joined (List.cons_ne_nil _ _) hl) fits).2
  obtain ⟨next, ls, hn⟩ := List.exists_cons_of_ne_nil (pieces_ne_nil (· = '.') kept)
  rw [labels, hn, octets_joined_cons, ← hn, ← labels, joined_labels] at longest
  omega

/-- Shortening drops labels until what is left fits or is a single label, and that keeps as much as
can be kept: the longest rest of the name that fits, in characters and in octets, or else what stands
behind the last dot. So it does nothing to a name that fits and to one that was shortened before, no
label is cut in two, and none is dropped that would have fit. -/
theorem shorten_keeps_most (name : String) :
    Shortened name.toList (shorten name).toList ∧
    (∀ kept : String, shorten name = kept ↔ KeepsMost '.' octets name.toList kept.toList) ∧
    KeepsMost dotOctet List.length (encode name.toList) (encode (shorten name).toList) ∧
    shorten (shorten name) = shorten name ∧
    (octets name.toList ≤ maxOctets → shorten name = name) ∧
    labels (shorten name).toList <:+ labels name.toList ∧
    ∀ label, label :: labels (shorten name).toList <:+ labels name.toList →
      maxOctets < octets (joined ['.'] (label :: labels (shorten name).toList)) := by
  have shortened : Shortened name.toList (shorten name).toList := shorten_eq_iff.mp rfl
  have most := shortened.keepsMost
  refine ⟨shortened, fun kept => ⟨?_, fun h => ?_⟩, most.encode, ?_, shorten_of_le,
    isRest_iff.mp most.isRest, fun label => most.exceeds⟩
  · rintro rfl
    exact most
  · rw [← String.toList_inj]
    exact most.unique h
  · exact shorten_eq_iff.mpr (.fits shortened.fits_or_undotted)

end SenderPolicy.Domain
