import SenderPolicy.Text

/-!
# Domain names

A domain name is a text of labels between dots. The resolver's limits are 63 octets for a label
and 255 for a name.

## Main definitions

* `labels`: the labels of a name
* `WellFormed`: every label has 1 to 63 octets; one dot may follow the last
* `isWithin`: a name is a domain or lies below it
* `shorten`: a name without as many leading labels as it takes to fit into a lookup

## Main results

* `shortenLabels_cons`: shortening drops the first label of a name that does not fit
* `shortenLabels_suffix`: shortening only drops leading labels
* `octets_shortenLabels`: what remains fits, or is a single label
* `shorten_of_le`: a name that fits is not shortened
-/

namespace SenderPolicy.Domain

open Text

/-- The most octets that a label may have. -/
def maxLabelOctets : Nat := 63

/-- The most octets that a name may have. -/
def maxOctets : Nat := 255

/-- The labels of a name. -/
def labels (cs : List Char) : List (List Char) :=
  pieces (· = '.') cs

/-- A name without one dot at its end. -/
def dropFinalDot (cs : List Char) : List Char :=
  if cs.getLast? = some '.' then cs.dropLast else cs

/-- Every label has 1 to 63 octets; one dot may follow the last. -/
def WellFormed (domain : String) : Prop :=
  ∀ l ∈ labels (dropFinalDot domain.toList), l ≠ [] ∧ octets l ≤ maxLabelOctets

instance (domain : String) : Decidable (WellFormed domain) := by
  unfold WellFormed
  infer_instance

/-- The text under which names are compared: lower case, without dots at the end. -/
def folded (domain : String) : String :=
  lower (trimDots domain)

/-- The name is the domain or lies below it. -/
def isWithin (name domain : String) : Bool :=
  folded name == folded domain || ('.' :: (folded domain).toList).isSuffixOf (folded name).toList

/-! ## Names that fit into a lookup

An expansion can be longer than a name may be. Whole labels are dropped from the left, where the
more specific ones stand, so that what remains still lies below the same domain. -/

/-- Labels, of `size` octets with the dots between them, without as many leading ones as it takes
to fit; the last one stays. -/
def dropToFit (size : Nat) : List (List Char) → List (List Char)
  | [] => []
  | [l] => [l]
  | l :: m :: ls =>
    if size ≤ maxOctets then l :: m :: ls else dropToFit (size - (octets l + 1)) (m :: ls)

/-- Labels without as many leading ones as it takes to fit; the last one stays. -/
def shortenLabels (ls : List (List Char)) : List (List Char) :=
  dropToFit (octets (joined ['.'] ls)) ls

/-- A name without as many leading labels as it takes to fit into a lookup. -/
def shorten (domain : String) : String :=
  String.ofList (joined ['.'] (shortenLabels (labels domain.toList)))

/-- A leading label counts its octets and the dot behind it. -/
theorem octets_joined_cons (l m : List Char) (ls : List (List Char)) :
    octets (joined ['.'] (l :: m :: ls)) = octets l + 1 + octets (joined ['.'] (m :: ls)) := by
  simp [joined, octets, Char.utf8Size]
  omega

/-- Shortening drops the first label of a name that does not fit, and looks again. -/
theorem shortenLabels_cons (l m : List Char) (ls : List (List Char)) :
    shortenLabels (l :: m :: ls) =
      if octets (joined ['.'] (l :: m :: ls)) ≤ maxOctets then l :: m :: ls
      else shortenLabels (m :: ls) := by
  rw [shortenLabels, dropToFit, shortenLabels, octets_joined_cons, Nat.add_sub_cancel_left]

/-- Shortening only drops leading labels. -/
theorem shortenLabels_suffix : (ls : List (List Char)) → shortenLabels ls <:+ ls
  | [] | [_] => List.suffix_refl _
  | l :: m :: ls => by
    rw [shortenLabels_cons]
    split
    · exact List.suffix_refl _
    · exact (shortenLabels_suffix (m :: ls)).trans (List.suffix_cons l (m :: ls))

/-- What remains fits, or is a single label. -/
theorem octets_shortenLabels : (ls : List (List Char)) →
    octets (joined ['.'] (shortenLabels ls)) ≤ maxOctets ∨ (shortenLabels ls).length ≤ 1
  | [] | [_] => by simp [shortenLabels, dropToFit]
  | l :: m :: ls => by
    rw [shortenLabels_cons]
    split
    · exact Or.inl ‹_›
    · exact octets_shortenLabels (m :: ls)

theorem joined_labels (cs : List Char) : joined ['.'] (labels cs) = cs :=
  joined_pieces '.' cs

theorem shortenLabels_of_le {ls : List (List Char)} (h : octets (joined ['.'] ls) ≤ maxOctets) :
    shortenLabels ls = ls := by
  cases ls with
  | nil => rfl
  | cons l ls =>
    cases ls with
    | nil => rfl
    | cons m ls => rw [shortenLabels_cons, if_pos h]

/-- A name that fits is not shortened. -/
theorem shorten_of_le {domain : String} (h : octets domain.toList ≤ maxOctets) :
    shorten domain = domain := by
  rw [shorten, shortenLabels_of_le (by rwa [joined_labels]), joined_labels, String.ofList_toList]

end SenderPolicy.Domain
