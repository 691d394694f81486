import SenderPolicy.Proofs.Text.Octets

/-!
# Tails of texts

Of two ends of a text one ends the other, so their octets say which is the longer. Some ends begin
where the text does or right behind one of its separators, and so cut no piece in two. The octets of
a text have the octet of the dot where the text has a dot, and nowhere else: the octets that follow
one are those of what follows a dot.

## Main definitions

* `IsRest`: what is left of a list from its beginning, or from behind a separator

## Main results

* `suffix_of_octets_le`: of two ends of a text the one of fewer octets ends the other
* `isRest_append_iff`: what follows a separator, or all of the list
* `isRest_encode_iff`: octets behind the octet of a dot
-/

namespace SenderPolicy.Text

/-! ## Ends and their octets -/

theorem eq_nil_of_octets {cs : List Char} (h : octets cs = 0) : cs = [] := by
  cases cs with
  | nil => rfl
  | cons c cs =>
    have := c.utf8Size_pos
    rw [octets] at h
    omega

theorem octets_le_of_suffix {xs ys : List Char} (h : xs <:+ ys) : octets xs ≤ octets ys := by
  obtain ⟨front, rfl⟩ := h
  simp

/-- Of two ends of a name, the one of fewer octets ends the other. -/
theorem suffix_of_octets_le {cs xs ys : List Char} (hx : xs <:+ cs) (hy : ys <:+ cs)
    (h : octets xs ≤ octets ys) : xs <:+ ys := by
  obtain hs | ⟨front, rfl⟩ := List.suffix_or_suffix_of_suffix hx hy
  · exact hs
  · rw [octets_append] at h
    rw [eq_nil_of_octets (show octets front = 0 by omega)]
    exact List.suffix_refl _

/-! ## Rests behind separators -/

/-- What is left of a list from its beginning, or from right behind one of its separators. -/
def IsRest {α : Type} (sep : α) (rest whole : List α) : Prop :=
  rest = whole ∨ ∃ front, whole = front ++ sep :: rest

section Rests

variable {α : Type} {sep : α} {rest other whole : List α}

theorem IsRest.refl (whole : List α) : IsRest sep whole whole :=
  .inl rfl

theorem IsRest.suffix (h : IsRest sep rest whole) : rest <:+ whole := by
  rcases h with rfl | ⟨front, rfl⟩
  · exact List.suffix_refl _
  · exact ⟨front ++ [sep], by simp⟩

theorem IsRest.append (h : IsRest sep rest whole) (front : List α) :
    IsRest sep rest (front ++ sep :: whole) := by
  rcases h with rfl | ⟨middle, rfl⟩
  · exact .inr ⟨front, rfl⟩
  · exact .inr ⟨front ++ sep :: middle, by simp⟩

/-- A list without separators has no rest but itself. -/
theorem isRest_iff_of_not_mem (h : sep ∉ whole) : IsRest sep rest whole ↔ rest = whole := by
  constructor
  · rintro (rfl | ⟨front, rfl⟩)
    · rfl
    · exact absurd (by simp) h
  · rintro rfl
    exact .refl _

/-- What is left is all, or it is left of what stands behind the first separator. -/
theorem isRest_append_iff {piece : List α} (h : sep ∉ piece) :
    IsRest sep rest (piece ++ sep :: whole) ↔
      rest = piece ++ sep :: whole ∨ IsRest sep rest whole := by
  constructor
  · rintro (rfl | ⟨front, hf⟩)
    · exact .inl rfl
    · refine .inr ?_
      rcases List.append_eq_append_iff.mp hf with ⟨between, rfl, hw⟩ | ⟨between, rfl, hr⟩
      · cases between with
        | nil =>
          cases hw
          exact .refl _
        | cons c between =>
          cases hw
          exact .inr ⟨between, rfl⟩
      · -- the separator would stand within the piece
        cases between with
        | nil =>
          cases hr
          exact .refl _
        | cons c between =>
          cases hr
          exact absurd (by simp) h
  · rintro (rfl | hr)
    · exact .refl _
    · exact hr.append piece

/-- Of two rests the shorter is a rest of the longer. -/
theorem IsRest.of_suffix (hr : IsRest sep rest whole) (ho : IsRest sep other whole)
    (h : rest <:+ other) : IsRest sep rest other := by
  obtain ⟨front, rfl⟩ := h
  rcases List.eq_nil_or_concat front with rfl | ⟨front, c, rfl⟩
  · exact .refl _
  · rw [List.concat_eq_append, List.append_assoc, List.singleton_append] at ho ⊢
    obtain ⟨before, hb⟩ := ho.suffix
    rcases hr with hw | ⟨front', hf⟩
    · have length := congrArg List.length (hb.trans hw.symm)
      simp only [List.length_append, List.length_cons] at length
      omega
    · -- what stands right before the rest is the same in both
      have same : c :: rest = sep :: rest := by
        rw [← hb, ← List.append_assoc] at hf
        exact (List.append_inj' hf rfl).2
      rw [(List.cons.inj same).1]
      exact .inr ⟨front, rfl⟩

end Rests

/-! ## Rests of octets -/

theorem length_encode (cs : List Char) : (encode cs).length = octets cs := by
  induction cs with
  | nil => rfl
  | cons c cs ih =>
    rw [encode_cons, List.length_append, String.length_utf8EncodeChar, ih, octets]

theorem encode_inj {cs ds : List Char} : encode cs = encode ds ↔ cs = ds := by
  constructor
  · intro h
    rw [← decodeFrom_encode cs, h, decodeFrom_encode]
  · rintro rfl
    rfl

/-- The octet of a dot. -/
def dotOctet : UInt8 := 0x2E

theorem encode_dot (cs : List Char) : encode ('.' :: cs) = dotOctet :: encode cs :=
  rfl

/-- Where the octets of a text have the octet of a dot, the text has a dot. -/
theorem exists_of_encode_eq {cs : List Char} {front rest : List UInt8}
    (h : encode cs = front ++ dotOctet :: rest) :
    ∃ before behind, cs = before ++ '.' :: behind ∧ rest = encode behind := by
  have aligned : IsAligned (dotOctet :: rest) := by
    rintro b ⟨rfl⟩
    decide
  obtain ⟨before, behind, rfl, hb⟩ := exists_encode_of_isAligned h.symm aligned
  -- what begins with the octet is read as a dot and what follows
  have read : behind = '.' :: decodeFrom none rest := by
    rw [← decodeFrom_encode behind, ← hb]
    rfl
  rw [read, encode_dot] at hb
  refine ⟨before, decodeFrom none rest, ?_, (List.cons.inj hb).2⟩
  rw [← encode_inj, h, encode_append, encode_dot, ← (List.cons.inj hb).2]

/-- The rests of the octets of a text are the octets of its rests. -/
theorem isRest_encode_iff {cs : List Char} {bs : List UInt8} :
    IsRest dotOctet bs (encode cs) ↔ ∃ rest, bs = encode rest ∧ IsRest '.' rest cs := by
  constructor
  · rintro (rfl | ⟨front, hf⟩)
    · exact ⟨cs, rfl, .refl _⟩
    · obtain ⟨before, behind, rfl, rfl⟩ := exists_of_encode_eq hf
      exact ⟨behind, rfl, .inr ⟨before, rfl⟩⟩
  · rintro ⟨rest, rfl, rfl | ⟨front, rfl⟩⟩
    · exact .refl _
    · exact .inr ⟨encode front, by rw [encode_append, encode_dot]⟩

theorem dotOctet_mem_encode_iff {cs : List Char} : dotOctet ∈ encode cs ↔ '.' ∈ cs := by
  constructor
  · intro h
    obtain ⟨front, rest, hf⟩ := List.append_of_mem h
    obtain ⟨before, behind, rfl, -⟩ := exists_of_encode_eq hf
    simp
  · intro h
    obtain ⟨before, behind, rfl⟩ := List.append_of_mem h
    rw [encode_append, encode_dot]
    simp

end SenderPolicy.Text
