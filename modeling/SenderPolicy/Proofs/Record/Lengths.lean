import SenderPolicy.Proofs.Record.Terms

/-!
# Cutting lengths off an argument

The lengths of a network are the digits at the end of an argument, behind their marks. They can be
cut off from the end, because no domain ends in a slash and digits: what stands behind its last dot
is a label that is no number, or it ends in what is replaced.

## Main definitions

* `EndsInLength`: the text ends in a mark and digits

## Main results

* `cutLength_of_length`: a length is cut off behind a text that ends in none
* `exists_of_cutLength`: what is cut off is a length
* `cutLengths_of_lengths`: an argument is cut into its domain and its two lengths
-/

namespace SenderPolicy.Record

open Text Macro

/-- The text ends in the mark and digits. -/
def EndsInLength (mark cs : List Char) : Prop :=
  ∃ front digits, digits ≠ [] ∧ (∀ c ∈ digits, c.isDigit = true) ∧ cs = front ++ (mark ++ digits)

/-! ## One length -/

/-- The digits at the end of a text are those behind its last character that is none. -/
theorem digits_at_end (front : List Char) {digits : List Char} {c : Char}
    (hc : c.isDigit = false) (hd : ∀ x ∈ digits, x.isDigit = true) :
    ((front ++ c :: digits).reverse.takeWhile Char.isDigit).reverse = digits ∧
      ((front ++ c :: digits).reverse.dropWhile Char.isDigit).reverse = front ++ [c] := by
  have split : (front ++ c :: digits).reverse = digits.reverse ++ c :: front.reverse := by simp
  have run : ∀ x ∈ digits.reverse, x.isDigit = true := by simpa using hd
  have stop : ∀ x ∈ (c :: front.reverse).head?, x.isDigit = false := by simpa using hc
  rw [split, takeWhile_append_of_stop run stop, dropWhile_append_of_stop run stop]
  simp

/-- What is cut off is a length. -/
theorem exists_of_cutLength {mark cs front : List Char} {digits : Option (List Char)}
    (h : cutLength mark cs = (front, digits)) :
    ∃ length, cs = front ++ length ∧ OptionalLength mark length digits := by
  have split : cs = (cs.reverse.dropWhile Char.isDigit).reverse ++
      (cs.reverse.takeWhile Char.isDigit).reverse := by
    rw [← List.reverse_append, List.takeWhile_append_dropWhile, List.reverse_reverse]
  have run : ∀ c ∈ (cs.reverse.takeWhile Char.isDigit).reverse, c.isDigit = true := by
    simpa using List.all_eq_true.mp (List.all_takeWhile (p := Char.isDigit) (l := cs.reverse))
  simp only [cutLength] at h
  split at h
  -- there are digits at the end, and the mark stands in front of them
  · rename_i hc
    obtain ⟨before, hb⟩ := List.isSuffixOf_iff_suffix.mp hc.2
    rw [← hb, List.length_append, Nat.add_sub_cancel, List.take_left] at h
    cases h
    refine ⟨_, ?_, .present hc.1 run⟩
    rw [← List.append_assoc, hb]
    exact split
  · cases h
    exact ⟨[], (List.append_nil _).symm, .absent⟩

/-- A length is cut off behind a text that ends in none. -/
theorem cutLength_of_length {mark front length : List Char} {digits : Option (List Char)}
    (hm : ∃ before, mark = before ++ ['/']) (hl : OptionalLength mark length digits)
    (hf : ¬ EndsInLength mark front) : cutLength mark (front ++ length) = (front, digits) := by
  cases hl with
  | absent =>
    rw [List.append_nil]
    obtain ⟨before, digits, hc⟩ : ∃ before digits, cutLength mark front = (before, digits) :=
      ⟨_, _, rfl⟩
    obtain ⟨length, rfl, hl⟩ := exists_of_cutLength hc
    -- what would be cut off is a length, which the text does not end in
    cases hl with
    | absent => rw [hc, List.append_nil]
    | present hn hd => exact absurd ⟨before, _, hn, hd, rfl⟩ hf
  | @present digits hn hd =>
    obtain ⟨before, rfl⟩ := hm
    obtain ⟨taken, dropped⟩ := digits_at_end (front ++ before) (c := '/') rfl hd
    have split : front ++ (before ++ ['/'] ++ digits) = front ++ before ++ '/' :: digits := by simp
    simp only [cutLength, split, taken, dropped]
    rw [if_pos ⟨hn, by simp⟩]
    simp

/-- A text without slashes has its length behind the only one. -/
theorem cutLength_of_unslashed {front length : List Char} {digits : Option (List Char)}
    (hf : '/' ∉ front) (hl : OptionalLength ['/'] length digits) :
    cutLength ['/'] (front ++ length) = (front, digits) := by
  refine cutLength_of_length ⟨[], rfl⟩ hl ?_
  rintro ⟨front, digits, -, -, rfl⟩
  exact hf (by simp)

/-! ## The lengths behind a domain -/

theorem not_endsInLength_concat {mark cs : List Char} {c : Char} (hc : c.isDigit = false) :
    ¬ EndsInLength mark (cs ++ [c]) := by
  rintro ⟨front, digits, hn, hd, h⟩
  obtain ⟨init, last, rfl⟩ := (List.eq_nil_or_concat digits).resolve_left hn
  rw [List.concat_eq_append] at hd h
  rw [← List.append_assoc, ← List.append_assoc] at h
  have last_eq := (List.append_inj' h rfl).2
  rw [List.singleton_inj] at last_eq
  rw [last_eq, hd last (by simp)] at hc
  cases hc

/-- What is replaced ends in no digit and no slash. -/
theorem MacroExpand.exists_concat {e : List Char} (h : MacroExpand e) :
    ∃ init c, e = init ++ [c] ∧ c.isDigit = false ∧ c ≠ '/' := by
  cases h with
  | percent => exact ⟨['%'], '%', rfl, rfl, by decide⟩
  | space => exact ⟨['%'], '_', rfl, rfl, by decide⟩
  | escapedSpace => exact ⟨['%'], '-', rfl, rfl, by decide⟩
  | @cell content cell hw hl => exact ⟨'%' :: '\x7b' :: content, '\x7d', rfl, rfl, by decide⟩

theorem TopLabel.exists_nondigit {label : List Char} (h : TopLabel label) :
    ∃ c ∈ label, c.isDigit = false := by
  cases h with
  | @lettered front back c hf hc hb =>
    refine ⟨c, by simp, ?_⟩
    exact of_ascii (P := fun c => c.isAlpha = true → c.isDigit = false) (by decide)
      (ascii_of_isAlphanum (isAlphanum_of_isAlpha hc)) hc
  | hyphened hn hf hm hl => exact ⟨'-', by simp, rfl⟩

theorem TopLabel.slash_not_mem {label : List Char} (h : TopLabel label) : '/' ∉ label := by
  intro hm
  rcases h.chars.2 _ hm with hc | hc
  · exact absurd hc (by decide)
  · exact absurd hc (by decide)

/-- A domain does not end in a slash. -/
theorem DomainSpec.exists_concat {domain : List Char} (h : DomainSpec domain) :
    ∃ init c, domain = init ++ [c] ∧ c ≠ '/' := by
  cases h with
  | @named front label dot hf hl hd =>
    rcases hd with rfl | rfl
    · obtain ⟨init, last, hi⟩ := (List.eq_nil_or_concat label).resolve_left hl.chars.1
      rw [List.concat_eq_append] at hi
      refine ⟨front ++ '.' :: init, last, by simp [hi], ?_⟩
      rintro rfl
      exact hl.slash_not_mem (by simp [hi])
    · exact ⟨front ++ '.' :: label, '.', by simp, by decide⟩
  | @expanded front e hf he =>
    obtain ⟨init, c, rfl, -, hs⟩ := he.exists_concat
    exact ⟨front ++ init, c, by simp, hs⟩

/-- A domain does not end in a slash and digits. -/
theorem DomainSpec.not_endsInLength {domain : List Char} (h : DomainSpec domain)
    (before : List Char) : ¬ EndsInLength ['/'] (before ++ domain) := by
  cases h with
  | @named front label dot hf hl hd =>
    rcases hd with rfl | rfl
    · rintro ⟨front', digits, hn, hd, h⟩
      have h : (before ++ front ++ ['.']) ++ label = (front' ++ ['/']) ++ digits := by
        simpa using h
      obtain ⟨c, hc, hnd⟩ := hl.exists_nondigit
      -- the slash would stand inside the label, or the label would consist of digits
      rcases List.append_eq_append_iff.mp h with ⟨between, hs, rfl⟩ | ⟨between, hs, rfl⟩
      · rcases List.eq_nil_or_concat between with rfl | ⟨init, last, rfl⟩
        · rw [hd c hc] at hnd
          cases hnd
        · rw [List.concat_eq_append, ← List.append_assoc] at hs
          have last_eq := (List.append_inj' hs rfl).2
          rw [List.singleton_inj] at last_eq
          cases last_eq
          exact hl.slash_not_mem (by simp)
      · rw [hd c (List.mem_append_right _ hc)] at hnd
        cases hnd
    · have h := @not_endsInLength_concat ['/'] (before ++ (front ++ '.' :: label)) '.' rfl
      simpa using h
  | @expanded front e hf he =>
    obtain ⟨init, c, rfl, hc, -⟩ := he.exists_concat
    have h := @not_endsInLength_concat ['/'] (before ++ (front ++ init)) c hc
    simpa using h

/-- An argument is cut into its domain and its two lengths. -/
theorem cutLengths_of_lengths {target four six : List Char}
    {domain digits4 digits6 : Option (List Char)} (hd : OptionalDomain target domain)
    (h4 : OptionalLength ['/'] four digits4) (h6 : OptionalLength ['/', '/'] six digits6) :
    cutLengths (target ++ four ++ six) = (target, digits4, digits6) := by
  have unslashed : ∀ front, target ≠ front ++ ['/'] := by
    intro front
    cases hd with
    | absent => simp
    | present hd =>
      obtain ⟨init, c, rfl, hc⟩ := hd.exists_concat
      rintro h
      rw [← List.cons_append] at h
      exact hc (List.singleton_inj.mp (List.append_inj' h rfl).2)
  have single : ¬ EndsInLength ['/'] target := by
    cases hd with
    | absent =>
      rintro ⟨front, digits, -, -, h⟩
      simp at h
    | present hd => exact hd.not_endsInLength [':']
  have double : ¬ EndsInLength ['/', '/'] (target ++ four) := by
    rintro ⟨front, digits, hn, hd, h⟩
    cases h4 with
    | absent =>
      rw [List.append_nil] at h
      exact single ⟨front ++ ['/'], digits, hn, hd, by simp [h]⟩
    | @present digits' hn' hd' =>
      -- the digits at the end are the same, so the domain would end in the first of two slashes
      have left := (digits_at_end target (c := '/') rfl hd').2
      have right := (digits_at_end (front ++ ['/']) (c := '/') rfl hd).2
      have same : target ++ '/' :: digits' = front ++ ['/'] ++ '/' :: digits := by simpa using h
      rw [same, right] at left
      exact unslashed front (List.append_inj' left rfl).1.symm
  -- the lengths are cut off from the end, first the one behind two slashes
  have cut6 : cutLength ['/', '/'] (target ++ four ++ six) = (target ++ four, digits6) :=
    cutLength_of_length ⟨['/'], rfl⟩ h6 double
  have cut4 : cutLength ['/'] (target ++ four) = (target, digits4) :=
    cutLength_of_length ⟨[], rfl⟩ h4 single
  simp only [cutLengths, cut6, cut4]

end SenderPolicy.Record
