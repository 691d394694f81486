/-!
# Text

Texts are strings whose structure is read off their list of characters. Case is a matter of
ASCII letters only, white space is the `White_Space` property of Unicode, and a length that a
protocol limits is counted in octets of UTF-8.

## Main definitions

* `lower`: a text with its ASCII capitals in lower case
* `trim`, `trimDots`: a text without white space at its ends, without dots at its end
* `pieces sep`: the runs of characters between the separators of a text
* `joined sep`: pieces written one after the other with a separator in between
* `octets`: the length of a text in UTF-8
* `readDigits`: the number that decimal digits denote

## Main results

* `joined_pieces`: what is cut at a separator is put together again by that separator
* `pieces_joined`: pieces free of the separator are found again
-/

namespace SenderPolicy.Text

/-! ## Classes of characters -/

/-- The characters of the Unicode property `White_Space`. -/
def isBlank (c : Char) : Bool :=
  let n := c.toNat
  (0x09 ≤ n && n ≤ 0x0D) || n = 0x20 || n = 0x85 || n = 0xA0 || n = 0x1680 ||
    (0x2000 ≤ n && n ≤ 0x200A) || n = 0x2028 || n = 0x2029 || n = 0x202F || n = 0x205F ||
    n = 0x3000

/-- A hexadecimal digit in either case. -/
def isHexDigit (c : Char) : Bool :=
  c.isDigit || ('a' ≤ c && c ≤ 'f') || ('A' ≤ c && c ≤ 'F')

/-- A decimal digit's value, and the value of a hexadecimal digit in either case. -/
def digitValue (c : Char) : Nat :=
  if c.isDigit then c.toNat - '0'.toNat
  else if 'a' ≤ c then c.toNat - 'a'.toNat + 10
  else c.toNat - 'A'.toNat + 10

/-- What holds of the 128 characters of ASCII holds of each of them. -/
theorem of_ascii {P : Char → Prop} (h : ∀ n : Fin 128, P (Char.ofNat n)) {c : Char}
    (hc : c.toNat < 128) : P c := by
  have := h ⟨c.toNat, hc⟩
  rwa [Char.ofNat_toNat] at this

theorem ascii_of_isAlphanum {c : Char} (h : c.isAlphanum = true) : c.toNat < 128 := by
  unfold Char.isAlphanum Char.isAlpha Char.isUpper Char.isLower Char.isDigit at h
  simp only [Bool.or_eq_true, Bool.and_eq_true, decide_eq_true_eq, UInt32.le_iff_toNat_le,
    ge_iff_le] at h
  have : c.toNat = c.val.toNat := rfl
  simp only [this]
  rcases h with (h | h) | h <;> exact Nat.lt_of_le_of_lt h.2 (by decide)

/-! ## Letter case -/

/-- A text with its ASCII capitals in lower case. -/
def lower (s : String) : String :=
  String.ofList (s.toList.map Char.toLower)

@[simp] theorem toList_lower (s : String) : (lower s).toList = s.toList.map Char.toLower := by
  simp [lower]

/-- Equality up to the case of ASCII letters. -/
def sameFolded (s t : String) : Bool :=
  lower s == lower t

/-- The ASCII letter that a character folds to: besides the two ASCII cases, the long s folds to
`s` and the Kelvin sign to `k`. No other character outside ASCII folds into ASCII. -/
def foldedChar (c : Char) : Char :=
  if c = '\u017f' then 's' else if c = '\u212a' then 'k' else c.toLower

/-! ## Ends of a text -/

/-- A list without the longest part at its end that satisfies `p`. -/
def dropTrailing {α : Type} (p : α → Bool) (xs : List α) : List α :=
  (xs.reverse.dropWhile p).reverse

/-- A text without white space at both ends. -/
def trim (s : String) : String :=
  String.ofList (dropTrailing isBlank (s.toList.dropWhile isBlank))

/-- A text without the dots at its end. -/
def trimDots (s : String) : String :=
  String.ofList (dropTrailing (· = '.') s.toList)

@[simp] theorem toList_trimDots (s : String) :
    (trimDots s).toList = dropTrailing (· = '.') s.toList := by
  simp [trimDots]

/-! ## Runs

A run of characters of a class ends where the next character is none of them. -/

theorem takeWhile_append_of_stop {α : Type} {p : α → Bool} {xs ys : List α}
    (hx : ∀ x ∈ xs, p x = true) (hy : ∀ y ∈ ys.head?, p y = false) :
    (xs ++ ys).takeWhile p = xs := by
  rw [List.takeWhile_append_of_pos hx]
  cases ys with
  | nil => simp
  | cons y ys => simp [hy y rfl]

theorem dropWhile_append_of_stop {α : Type} {p : α → Bool} {xs ys : List α}
    (hx : ∀ x ∈ xs, p x = true) (hy : ∀ y ∈ ys.head?, p y = false) :
    (xs ++ ys).dropWhile p = ys := by
  rw [List.dropWhile_append_of_pos hx]
  cases ys with
  | nil => rfl
  | cons y ys => simp [hy y rfl]

/-! ## Cutting and joining

Empty pieces count: a separator at an end of a list has an empty piece beside it. That makes
cutting and joining inverse to each other. -/

/-- The runs between the separators of a list; `n` separators cut it into `n + 1` pieces. -/
def pieces {α : Type} (sep : α → Bool) : List α → List (List α)
  | [] => [[]]
  | c :: cs =>
    if sep c then [] :: pieces sep cs
    else
      match pieces sep cs with
      | [] => [[c]]
      | p :: ps => (c :: p) :: ps

/-- The pieces of a list, each after the first preceded by the separator. -/
def joined {α : Type} (sep : List α) : List (List α) → List α
  | [] => []
  | [p] => p
  | p :: q :: ps => p ++ sep ++ joined sep (q :: ps)

theorem pieces_ne_nil {α : Type} (sep : α → Bool) (cs : List α) : pieces sep cs ≠ [] := by
  induction cs with
  | nil => simp [pieces]
  | cons c cs ih =>
    rw [pieces]
    split
    · simp
    · split <;> simp

/-- What is cut at a separator is put together again by that separator. -/
theorem joined_pieces {α : Type} [DecidableEq α] (sep : α) (cs : List α) :
    joined [sep] (pieces (· = sep) cs) = cs := by
  induction cs with
  | nil => rfl
  | cons c cs ih =>
    rw [pieces]
    obtain ⟨p, ps, h⟩ := List.exists_cons_of_ne_nil (pieces_ne_nil (· = sep) cs)
    rw [h] at ih ⊢
    by_cases hc : c = sep
    · simp [hc, joined, ih]
    · cases ps with
      | nil => simpa [hc, joined] using ih
      | cons q ps => simpa [hc, joined] using ih

/-- The members of a list, each by itself, are put together again without a separator. -/
theorem joined_singletons {α : Type} (cs : List α) : joined [] (cs.map fun c => [c]) = cs := by
  induction cs with
  | nil => rfl
  | cons c cs ih =>
    cases cs with
    | nil => rfl
    | cons d cs => simpa [joined] using ih

/-- A list without separators is its only piece. -/
theorem pieces_of_forall {α : Type} {sep : α → Bool} {cs : List α} (h : ∀ c ∈ cs, sep c = false) :
    pieces sep cs = [cs] := by
  induction cs with
  | nil => rfl
  | cons c cs ih =>
    simp only [List.mem_cons, forall_eq_or_imp] at h
    simp [pieces, h.1, ih h.2]

/-- A piece without separators in front of a separator is the first piece. -/
theorem pieces_append_cons {α : Type} {sep : α → Bool} {p : List α} {c : α} {cs : List α}
    (h : ∀ x ∈ p, sep x = false) (hc : sep c = true) :
    pieces sep (p ++ c :: cs) = p :: pieces sep cs := by
  induction p with
  | nil => simp [pieces, hc]
  | cons x p ih =>
    simp only [List.mem_cons, forall_eq_or_imp] at h
    simp [pieces, h.1, ih h.2]

/-- Pieces free of the separator are found again. -/
theorem pieces_joined {α : Type} [DecidableEq α] {sep : α} {ps : List (List α)} (hps : ps ≠ [])
    (h : ∀ p ∈ ps, sep ∉ p) : pieces (· = sep) (joined [sep] ps) = ps := by
  induction ps with
  | nil => exact absurd rfl hps
  | cons p ps ih =>
    simp only [List.mem_cons, forall_eq_or_imp] at h
    have hp : ∀ x ∈ p, decide (x = sep) = false := by
      intro x hx
      simp only [decide_eq_false_iff_not]
      rintro rfl
      exact h.1 hx
    cases ps with
    | nil => simpa [joined] using pieces_of_forall hp
    | cons q ps =>
      simp only [joined, List.append_assoc, List.cons_append, List.nil_append]
      rw [pieces_append_cons hp (by simp), ih (by simp) h.2]

/-- Both sides of a separator are cut by themselves. -/
theorem pieces_append {α : Type} {sep : α → Bool} {c : α} (hc : sep c = true) (xs ys : List α) :
    pieces sep (xs ++ c :: ys) = pieces sep xs ++ pieces sep ys := by
  induction xs with
  | nil => simp [pieces, hc]
  | cons x xs ih =>
    rw [List.cons_append, pieces, pieces, ih]
    by_cases hx : sep x = true
    · rw [if_pos hx, if_pos hx, List.cons_append]
    · rw [if_neg hx, if_neg hx]
      obtain ⟨p, ps, h⟩ := List.exists_cons_of_ne_nil (pieces_ne_nil sep xs)
      rw [h]
      rfl

theorem joined_append {α : Type} {sep : List α} {ps qs : List (List α)} (hp : ps ≠ [])
    (hq : qs ≠ []) : joined sep (ps ++ qs) = joined sep ps ++ sep ++ joined sep qs := by
  induction ps with
  | nil => exact absurd rfl hp
  | cons p ps ih =>
    cases ps with
    | nil =>
      obtain ⟨q, qs, rfl⟩ := List.exists_cons_of_ne_nil hq
      rfl
    | cons p' ps =>
      show p ++ sep ++ joined sep (p' :: ps ++ qs) = _
      rw [ih (List.cons_ne_nil p' ps), joined]
      simp only [List.append_assoc]

/-- What stands in joined pieces stands in the separator or in one of the pieces. -/
theorem mem_joined {α : Type} {sep : List α} {ps : List (List α)} {c : α} (h : c ∈ joined sep ps) :
    c ∈ sep ∨ ∃ p ∈ ps, c ∈ p := by
  induction ps with
  | nil => cases h
  | cons p ps ih =>
    cases ps with
    | nil => exact Or.inr ⟨p, List.mem_cons_self, h⟩
    | cons q ps =>
      rw [joined, List.mem_append, List.mem_append] at h
      rcases h with (h | h) | h
      · exact Or.inr ⟨p, List.mem_cons_self, h⟩
      · exact Or.inl h
      · exact (ih h).imp_right fun ⟨r, hr, hc⟩ => ⟨r, List.mem_cons_of_mem p hr, hc⟩

/-- The pieces of a text between the occurrences of a character. -/
def splitOn (sep : Char) (s : String) : List String :=
  (pieces (· = sep) s.toList).map String.ofList

/-- Texts written one after the other with a separator in between. -/
def join (sep : String) (ps : List String) : String :=
  String.ofList (joined sep.toList (ps.map String.toList))

/-- The part before the last occurrence of a character and the part after it. -/
def splitLast? (sep : Char) (s : String) : Option (String × String) :=
  if s.toList.contains sep then
    let after := (s.toList.reverse.takeWhile (· ≠ sep)).reverse
    let before := (s.toList.reverse.dropWhile (· ≠ sep)).tail.reverse
    some (String.ofList before, String.ofList after)
  else none

/-- The word stands somewhere in the text. -/
def occurs (word : List Char) : List Char → Bool
  | [] => word.isEmpty
  | c :: cs => word.isPrefixOf (c :: cs) || occurs word cs

/-! ## Lengths and numbers -/

/-- The length of a text in octets of UTF-8. -/
def octets : List Char → Nat
  | [] => 0
  | c :: cs => c.utf8Size + octets cs

@[simp] theorem octets_append (cs ds : List Char) : octets (cs ++ ds) = octets cs + octets ds := by
  induction cs with
  | nil => simp [octets]
  | cons c cs ih => simp [octets, ih, Nat.add_assoc]

/-- The number that digits denote in a base. -/
def digitsValue (base : Nat) (cs : List Char) : Nat :=
  cs.foldl (fun n c => base * n + digitValue c) 0

/-- The number that a non-empty run of decimal digits denotes. -/
def readDigits (cs : List Char) : Option Nat :=
  if cs ≠ [] ∧ cs.all Char.isDigit then some (digitsValue 10 cs) else none

end SenderPolicy.Text
