import SenderPolicy.Identity
import SenderPolicy.Policy.Table
import SenderPolicy.Text.Utf8

/-!
# Letter case

Two texts are alike if they differ in the case of ASCII letters only. What is read off the structure
of a text, where its dots stand, how long its labels are, which octets are escaped, does not depend
on the case of its letters: it is the same for alike texts, or alike.

## Main definitions

* `Alike`: texts that are equal up to the case of ASCII letters

## Main results

* `alike_trim`, `alike_trimDots`, `splitLast?_alike`, `alike_escape`: alike parts of alike texts
* `Domain.wellFormed_congr`, `Domain.folded_congr`, `Domain.alike_shorten`: alike domain names
* `Policy.Table.lookup_congr`: a table holds one record for alike names
-/

namespace SenderPolicy.Text

/-! ## Characters -/

/-- A character in lower case is a capital's small letter, or the character itself. -/
theorem of_toLower {P : Char → Char → Prop} (same : ∀ c, P c c)
    (capitals : ∀ n : Fin 128, P (Char.ofNat n) (Char.ofNat n).toLower) (c : Char) :
    P c c.toLower := by
  by_cases hc : c.toNat < 128
  · exact of_ascii (P := fun c => P c c.toLower) capitals hc
  · have small : c.toLower = c := by
      unfold Char.toLower
      split
      · rename_i capital
        have upper : c.toNat ≤ 'Z'.toNat := UInt32.le_iff_toNat_le.mp capital.2
        exact absurd (Nat.lt_of_le_of_lt upper (by decide)) hc
      · rfl
    rw [small]
    exact same c

theorem utf8Size_toLower (c : Char) : c.toLower.utf8Size = c.utf8Size :=
  of_toLower (P := fun c d => d.utf8Size = c.utf8Size) (fun _ => rfl) (by decide) c

theorem isBlank_toLower (c : Char) : isBlank c.toLower = isBlank c :=
  of_toLower (P := fun c d => isBlank d = isBlank c) (fun _ => rfl) (by decide) c

theorem escape_toLower (c : Char) :
    (((encode [c.toLower]).flatMap escapeOctet).map Char.toLower) =
      ((encode [c]).flatMap escapeOctet).map Char.toLower :=
  of_toLower (P := fun c d => ((encode [d]).flatMap escapeOctet).map Char.toLower =
    ((encode [c]).flatMap escapeOctet).map Char.toLower) (fun _ => rfl) (by decide) c

/-- A character that is no letter is found again in lower case. -/
theorem toLower_eq_iff {d : Char} (hd : d.toLower = d)
    (letter : ∀ n : Fin 128, (Char.ofNat n).toLower = d → Char.ofNat n = d) (c : Char) :
    c.toLower = d ↔ c = d := by
  constructor
  · exact of_toLower (P := fun c e => e = d → c = d) (fun _ h => h) letter c
  · rintro rfl
    exact hd

theorem toLower_eq_dot (c : Char) : c.toLower = '.' ↔ c = '.' :=
  toLower_eq_iff rfl (by decide) c

theorem toLower_eq_at (c : Char) : c.toLower = '@' ↔ c = '@' :=
  toLower_eq_iff rfl (by decide) c

theorem toLower_eq_percent (c : Char) : c.toLower = '%' ↔ c = '%' :=
  toLower_eq_iff rfl (by decide) c

/-! ## Structure and letters -/

section Maps

variable {α β : Type} {f : α → β}

theorem dropTrailing_map {p : α → Bool} {q : β → Bool} (h : ∀ x, q (f x) = p x) (xs : List α) :
    dropTrailing q (xs.map f) = (dropTrailing p xs).map f := by
  have same : q ∘ f = p := funext h
  simp only [dropTrailing, ← List.map_reverse, List.dropWhile_map, same]

theorem pieces_map {p : α → Bool} {q : β → Bool} (h : ∀ x, q (f x) = p x) (xs : List α) :
    pieces q (xs.map f) = (pieces p xs).map (List.map f) := by
  induction xs with
  | nil => rfl
  | cons x xs ih =>
    rw [List.map_cons, pieces, pieces, ih, h]
    split
    · rfl
    · cases pieces p xs <;> rfl

theorem joined_map (sep : List α) (ps : List (List α)) :
    joined (sep.map f) (ps.map (List.map f)) = (joined sep ps).map f := by
  induction ps with
  | nil => rfl
  | cons p ps ih =>
    cases ps with
    | nil => rfl
    | cons q ps =>
      simp only [List.map_cons, joined, List.map_append] at ih ⊢
      rw [ih]

end Maps

theorem octets_toLower (cs : List Char) : octets (cs.map Char.toLower) = octets cs := by
  induction cs with
  | nil => rfl
  | cons c cs ih => rw [List.map_cons, octets, octets, utf8Size_toLower, ih]

/-! ## Alike texts -/

/-- The texts are equal up to the case of ASCII letters. -/
def Alike (s t : String) : Prop :=
  lower s = lower t

instance (s t : String) : Decidable (Alike s t) :=
  inferInstanceAs (Decidable (lower s = lower t))

variable {s s' t t' : String}

@[refl] theorem Alike.refl (s : String) : Alike s s := rfl

theorem alike_iff : Alike s t ↔ s.toList.map Char.toLower = t.toList.map Char.toLower := by
  unfold Alike lower
  rw [String.ofList_inj]

theorem alike_ofList {cs ds : List Char} :
    Alike (String.ofList cs) (String.ofList ds) ↔ cs.map Char.toLower = ds.map Char.toLower := by
  rw [alike_iff, String.toList_ofList, String.toList_ofList]

/-- What is put together from alike lists of characters, one way or the other, is alike. -/
theorem alike_of_map {F : List Char → List Char}
    (hF : ∀ cs, F (cs.map Char.toLower) = (F cs).map Char.toLower) (h : Alike s t) :
    Alike (String.ofList (F s.toList)) (String.ofList (F t.toList)) := by
  rw [alike_ofList, ← hF, ← hF, alike_iff.mp h]

theorem lower_append (s t : String) : lower (s ++ t) = lower s ++ lower t := by
  simp only [lower, String.toList_append, List.map_append, String.ofList_append]

theorem Alike.append (h : Alike s t) (h' : Alike s' t') : Alike (s ++ s') (t ++ t') := by
  unfold Alike at *
  rw [lower_append, lower_append, h, h']

theorem Alike.eq_empty_iff (h : Alike s t) : s = "" ↔ t = "" := by
  rw [← String.toList_eq_nil_iff, ← String.toList_eq_nil_iff, ← List.map_eq_nil_iff,
    alike_iff.mp h, List.map_eq_nil_iff]

theorem Alike.percent_mem_iff (h : Alike s t) : '%' ∈ s.toList ↔ '%' ∈ t.toList := by
  have folded (u : String) : '%' ∈ u.toList ↔ '%' ∈ u.toList.map Char.toLower := by
    simp [List.mem_map, toLower_eq_percent]
  rw [folded s, folded t, alike_iff.mp h]

theorem alike_trim (h : Alike s t) : Alike (trim s) (trim t) := by
  refine alike_of_map (F := fun cs => dropTrailing isBlank (cs.dropWhile isBlank)) (fun cs => ?_) h
  have same : isBlank ∘ Char.toLower = isBlank := funext isBlank_toLower
  rw [List.dropWhile_map, same, dropTrailing_map isBlank_toLower]

theorem alike_trimDots (h : Alike s t) : Alike (trimDots s) (trimDots t) :=
  alike_of_map (dropTrailing_map fun c => by simp [toLower_eq_dot]) h

/-- Alike texts are cut at their last at sign, or have none. -/
theorem splitLast?_alike (h : Alike s t) :
    splitLast? '@' s = none ∧ splitLast? '@' t = none ∨
      ∃ before after before' after', splitLast? '@' s = some (before, after) ∧
        splitLast? '@' t = some (before', after') ∧ Alike before before' ∧ Alike after after' := by
  have apart : (fun c => decide (c ≠ '@')) ∘ Char.toLower = fun c => decide (c ≠ '@') :=
    funext fun c => by simp [toLower_eq_at]
  have contains (cs : List Char) : (cs.map Char.toLower).contains '@' = cs.contains '@' := by
    rw [Bool.eq_iff_iff]
    simp [toLower_eq_at]
  have both : t.toList.contains '@' = s.toList.contains '@' := by
    rw [← contains, ← contains s.toList, alike_iff.mp h]
  unfold splitLast?
  rw [both]
  split
  · refine .inr ⟨_, _, _, _, rfl, rfl, ?_, ?_⟩
    · exact alike_of_map (F := fun cs => (cs.reverse.dropWhile (· ≠ '@')).tail.reverse)
        (fun cs => by rw [← List.map_reverse, List.dropWhile_map, apart, ← List.map_tail,
          ← List.map_reverse]) h
    · exact alike_of_map (F := fun cs => (cs.reverse.takeWhile (· ≠ '@')).reverse)
        (fun cs => by rw [← List.map_reverse, List.takeWhile_map, apart, ← List.map_reverse]) h
  · exact .inl ⟨rfl, rfl⟩

/-- Letters are not escaped, whatever their case. -/
theorem alike_escape (h : Alike s t) : Alike (escape s) (escape t) := by
  have lettered (cs : List Char) :
      ((encode (cs.map Char.toLower)).flatMap escapeOctet).map Char.toLower =
        ((encode cs).flatMap escapeOctet).map Char.toLower := by
    induction cs with
    | nil => rfl
    | cons c cs ih =>
      have first (c : Char) (cs : List Char) : encode (c :: cs) = encode [c] ++ encode cs := by
        simp [encode]
      rw [List.map_cons, first, first c, List.flatMap_append, List.flatMap_append, List.map_append,
        List.map_append, ih, escape_toLower]
  rw [escape, escape, alike_ofList, ← lettered, ← lettered t.toList, alike_iff.mp h]

/-- Alike texts in a row, with alike texts between them, are alike. -/
theorem alike_join {sep : String} {ps qs : List String} (h : ps.map lower = qs.map lower) :
    Alike (join sep ps) (join sep qs) := by
  have folded (ps : List String) : (joined sep.toList (ps.map String.toList)).map Char.toLower =
      joined (sep.toList.map Char.toLower) ((ps.map lower).map String.toList) := by
    rw [← joined_map, List.map_map, List.map_map]
    exact congrArg _ (List.map_congr_left fun p _ => (toList_lower p).symm)
  rw [join, join, alike_ofList, folded, folded, h]

end SenderPolicy.Text

/-! ## Domain names -/

namespace SenderPolicy.Domain

open Text

variable {s t : String}

theorem labels_toLower (cs : List Char) :
    labels (cs.map Char.toLower) = (labels cs).map (List.map Char.toLower) :=
  pieces_map (fun c => by simp [toLower_eq_dot]) cs

theorem dropFinalDot_toLower (cs : List Char) :
    dropFinalDot (cs.map Char.toLower) = (dropFinalDot cs).map Char.toLower := by
  have final : (cs.map Char.toLower).getLast? = some '.' ↔ cs.getLast? = some '.' := by
    rw [List.getLast?_map]
    cases cs.getLast? <;> simp [toLower_eq_dot]
  simp only [dropFinalDot, final]
  split
  · rw [List.map_dropLast]
  · rfl

theorem wellFormed_lower (s : String) : WellFormed (lower s) ↔ WellFormed s := by
  unfold WellFormed
  rw [toList_lower, dropFinalDot_toLower, labels_toLower, List.forall_mem_map]
  simp only [ne_eq, List.map_eq_nil_iff, octets_toLower]

theorem wellFormed_congr (h : Alike s t) : WellFormed s ↔ WellFormed t := by
  rw [← wellFormed_lower s, ← wellFormed_lower t, show lower s = lower t from h]

theorem folded_congr (h : Alike s t) : folded s = folded t :=
  alike_trimDots h

theorem isWithin_congr (name : String) (h : Alike s t) : isWithin name s = isWithin name t := by
  unfold isWithin
  rw [folded_congr h]

theorem sameFolded_congr (other : String) (h : Alike s t) :
    sameFolded s other = sameFolded t other := by
  unfold sameFolded
  rw [show lower s = lower t from h]

theorem dropToFit_toLower (size : Nat) (ls : List (List Char)) :
    dropToFit size (ls.map (List.map Char.toLower)) =
      (dropToFit size ls).map (List.map Char.toLower) := by
  fun_induction dropToFit size ls with
  | case1 | case2 => rfl
  | case3 size l m ls fits => simp [dropToFit, fits]
  | case4 size l m ls fits ih =>
    rw [List.map_cons, List.map_cons, dropToFit, if_neg fits, octets_toLower, ← List.map_cons, ih]

theorem alike_shorten (h : Alike s t) : Alike (shorten s) (shorten t) := by
  refine alike_of_map (F := fun cs => joined ['.'] (shortenLabels (labels cs))) (fun cs => ?_) h
  have dotted (ps : List (List Char)) : joined ['.'] (ps.map (List.map Char.toLower)) =
      (joined ['.'] ps).map Char.toLower := @joined_map _ _ Char.toLower ['.'] ps
  rw [labels_toLower, shortenLabels, shortenLabels, dotted, octets_toLower, dropToFit_toLower,
    dotted]

end SenderPolicy.Domain

namespace SenderPolicy.Policy.Table

theorem lookup_congr (table : Table) {s t : String} (h : Text.Alike s t) :
    table.lookup s = table.lookup t := by
  unfold lookup
  rw [Domain.folded_congr h]

end SenderPolicy.Policy.Table

namespace SenderPolicy.Identity

open Text

/-- The sender, its domain and the name that the client gives itself are alike. -/
structure Alike (i j : Identity) : Prop where
  client : j.client = i.client
  envelopeSender : Text.Alike i.envelopeSender j.envelopeSender
  localPart : Text.Alike i.localPart j.localPart
  senderDomain : Text.Alike i.senderDomain j.senderDomain
  helo : Text.Alike i.helo j.helo
  timestamp : j.timestamp = i.timestamp

theorem cutSender_alike {sender sender' helo helo' : String} (hs : Text.Alike sender sender')
    (hh : Text.Alike helo helo') :
    Text.Alike (cutSender sender helo).1 (cutSender sender' helo').1 ∧
      Text.Alike (cutSender sender helo).2 (cutSender sender' helo').2 := by
  unfold cutSender
  rcases splitLast?_alike hs with ⟨h, h'⟩ | ⟨_, _, _, _, h, h', before, after⟩
  · simp only [h, h', hs.eq_empty_iff]
    split
    · exact ⟨.refl _, hh⟩
    · exact ⟨.refl _, hs⟩
  · simp only [h, h']
    exact ⟨before, after⟩

/-- Identities that are read from alike texts are alike; if there are none to be read, the cause is
the same. -/
theorem read_alike (address : String) {sender sender' helo helo' : String} (timestamp : Int)
    (hs : Text.Alike sender sender') (hh : Text.Alike helo helo') :
    (∃ cause, read address sender helo timestamp = .error cause ∧
      read address sender' helo' timestamp = .error cause) ∨
    ∃ i j, read address sender helo timestamp = .ok i ∧
      read address sender' helo' timestamp = .ok j ∧ i.Alike j := by
  have helo := alike_trimDots (alike_trim hh)
  have sender := alike_trim hs
  obtain ⟨localPart, domain⟩ := cutSender_alike sender helo
  have trimmed := alike_trimDots domain
  unfold read
  cases Address.read (trim address) with
  | none => exact .inl ⟨_, rfl, rfl⟩
  | some client =>
    simp only [trimmed.eq_empty_iff, localPart.eq_empty_iff]
    split
    · exact .inl ⟨_, rfl, rfl⟩
    · refine .inr ⟨_, _, rfl, rfl, rfl, sender, ?_, trimmed, helo, rfl⟩
      dsimp only
      split
      · exact .refl _
      · exact localPart

theorem Alike.sender {i j : Identity} (h : i.Alike j) : Text.Alike i.sender j.sender :=
  (h.localPart.append (.refl "@")).append h.senderDomain

end SenderPolicy.Identity
