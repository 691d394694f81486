import SenderPolicy.Proofs.Macro.Elements
import SenderPolicy.Proofs.Text.Tails

/-!
# Values of capital letters

A capital letter names the same value as the small one, and the value is escaped octet by octet. What
is escaped is made of characters that mean nothing in a URL and of percent signs with two digits
each; the octets of the value are read off it, so no two values are escaped alike.

## Main definitions

* `Escaped`: a text of unreserved characters and of octets in hexadecimal digits

## Main results

* `escaped_flatMap`, `unescape?_flatMap`: what is escaped is safe, and is read back
* `escape_eq_self_iff`: a text is escaped into itself if there is nothing to escape
* `expandCell_capital`: what a cell of a capital letter comes to
* `escape_reversible`: all of this of every text
-/

namespace SenderPolicy

namespace Text

/-! ## Escaped texts -/

/-- A hexadecimal digit that is no small letter. -/
def isUpperHexDigit (c : Char) : Bool :=
  c.isDigit || ('A' ≤ c && c ≤ 'F')

/-- A text of unreserved characters, and of percent signs with two upper-case hexadecimal digits
behind each. -/
inductive Escaped : List Char → Prop
  | nil : Escaped []
  | unreserved {c : Char} {cs : List Char} (hc : isUnreserved c = true) (rest : Escaped cs) :
      Escaped (c :: cs)
  | octet {high low : Char} {cs : List Char} (hh : isUpperHexDigit high = true)
      (hl : isUpperHexDigit low = true) (rest : Escaped cs) : Escaped ('%' :: high :: low :: cs)

theorem upperHexDigit_spec : ∀ n < 16, isUpperHexDigit (upperHexDigit n) = true ∧
    isHexDigit (upperHexDigit n) = true ∧ digitValue (upperHexDigit n) = n := by
  decide

section Octets

variable {b : UInt8} {bs : List UInt8}

theorem escapeOctet_unreserved (h : isUnreserved (Char.ofNat b.toNat) = true) :
    escapeOctet b = [Char.ofNat b.toNat] := by
  rw [escapeOctet, if_pos h]

theorem escapeOctet_reserved (h : ¬ isUnreserved (Char.ofNat b.toNat) = true) :
    escapeOctet b = ['%', upperHexDigit (b.toNat / 16), upperHexDigit (b.toNat % 16)] := by
  rw [escapeOctet, if_neg h]

theorem digits_of_octet (b : UInt8) : b.toNat / 16 < 16 ∧ b.toNat % 16 < 16 := by
  have := b.toNat_lt
  omega

theorem toNat_ofOctet (b : UInt8) : (Char.ofNat b.toNat).toNat = b.toNat := by
  have valid : b.toNat.isValidChar := .inl (Nat.lt_trans b.toNat_lt (by decide))
  rw [Char.ofNat, dif_pos valid]
  rfl

theorem escaped_flatMap (bs : List UInt8) : Escaped (bs.flatMap escapeOctet) := by
  induction bs with
  | nil => exact .nil
  | cons b bs ih =>
    rw [List.flatMap_cons]
    by_cases h : isUnreserved (Char.ofNat b.toNat) = true
    · rw [escapeOctet_unreserved h]
      exact .unreserved h ih
    · obtain ⟨high, low⟩ := digits_of_octet b
      rw [escapeOctet_reserved h]
      exact .octet (upperHexDigit_spec _ high).1 (upperHexDigit_spec _ low).1 ih

theorem unescape?_unreserved {c : Char} (h : isUnreserved c = true) (cs : List Char) :
    unescape? (c :: cs) = (unescape? cs).map (UInt8.ofNat c.toNat :: ·) := by
  have plain : c ≠ '%' := by
    rintro rfl
    exact absurd h (by decide)
  rw [unescape?, if_pos h]
  intro _ _ _ hc
  exact absurd hc plain

/-- An octet is read back, and reading goes on behind it. -/
theorem unescape?_escapeOctet (b : UInt8) (cs : List Char) :
    unescape? (escapeOctet b ++ cs) = (unescape? cs).map (b :: ·) := by
  by_cases h : isUnreserved (Char.ofNat b.toNat) = true
  · rw [escapeOctet_unreserved h, List.singleton_append, unescape?_unreserved h, toNat_ofOctet,
      UInt8.ofNat_toNat]
  · obtain ⟨high, low⟩ := digits_of_octet b
    obtain ⟨-, hh, high⟩ := upperHexDigit_spec _ high
    obtain ⟨-, hl, low⟩ := upperHexDigit_spec _ low
    rw [escapeOctet_reserved h]
    simp only [List.cons_append, List.nil_append]
    rw [unescape?, hh, hl, high, low, Nat.div_add_mod, UInt8.ofNat_toNat]
    rfl

/-- Octets are read back. -/
theorem unescape?_flatMap (bs : List UInt8) : unescape? (bs.flatMap escapeOctet) = some bs := by
  induction bs with
  | nil => rfl
  | cons b bs ih =>
    rw [List.flatMap_cons, unescape?_escapeOctet, ih]
    rfl

theorem length_le_flatMap (bs : List UInt8) : bs.length ≤ (bs.flatMap escapeOctet).length := by
  induction bs with
  | nil => exact Nat.le_refl 0
  | cons b bs ih =>
    rw [List.flatMap_cons, List.length_append, List.length_cons]
    by_cases h : isUnreserved (Char.ofNat b.toNat) = true
    · rw [escapeOctet_unreserved h, List.length_singleton]
      omega
    · rw [escapeOctet_reserved h, List.length_cons]
      omega

/-- Octets that take no more characters than they are make unreserved characters. -/
theorem unreserved_of_length_le (h : (bs.flatMap escapeOctet).length ≤ bs.length) :
    ∀ c ∈ bs.flatMap escapeOctet, isUnreserved c = true := by
  induction bs with
  | nil => exact nofun
  | cons b bs ih =>
    rw [List.flatMap_cons, List.length_append, List.length_cons] at h
    have behind := length_le_flatMap bs
    by_cases hb : isUnreserved (Char.ofNat b.toNat) = true
    · rw [escapeOctet_unreserved hb, List.length_singleton] at h
      rw [List.flatMap_cons, escapeOctet_unreserved hb, List.singleton_append]
      exact List.forall_mem_cons.mpr ⟨hb, ih (by omega)⟩
    · rw [escapeOctet_reserved hb] at h
      simp only [List.length_cons] at h
      omega

end Octets

section Escapes

variable {s t : String}

theorem toList_escape (s : String) :
    (escape s).toList = (encode s.toList).flatMap escapeOctet := by
  rw [escape, String.toList_ofList]

/-- The octets of a text are read off what it is escaped into. -/
theorem unescape?_escape (s : String) : unescape? (escape s).toList = some (encode s.toList) := by
  rw [toList_escape, unescape?_flatMap]

theorem escape_inj : escape s = escape t ↔ s = t := by
  constructor
  · intro h
    have octets := congrArg (fun s => unescape? s.toList) h
    simp only [unescape?_escape, Option.some.injEq, encode_inj] at octets
    exact String.toList_inj.mp octets
  · rintro rfl
    rfl

theorem escape_append (s t : String) : escape (s ++ t) = escape s ++ escape t := by
  rw [← String.toList_inj, String.toList_append, toList_escape, toList_escape, toList_escape,
    String.toList_append, encode_append, List.flatMap_append]

theorem ascii_of_isUnreserved {c : Char} (h : isUnreserved c = true) : c.toNat < 128 := by
  simp only [isUnreserved, Bool.or_eq_true, decide_eq_true_eq] at h
  rcases h with (((h | rfl) | rfl) | rfl) | rfl
  · exact ascii_of_isAlphanum h
  all_goals decide

theorem flatMap_encode_of_unreserved {cs : List Char} (h : ∀ c ∈ cs, isUnreserved c = true) :
    (encode cs).flatMap escapeOctet = cs := by
  induction cs with
  | nil => rfl
  | cons c cs ih =>
    rw [List.forall_mem_cons] at h
    have first : (String.utf8EncodeChar c).flatMap escapeOctet = [c] := of_ascii
      (P := fun c => isUnreserved c = true → (String.utf8EncodeChar c).flatMap escapeOctet = [c])
      (by decide) (ascii_of_isUnreserved h.1) h.1
    rw [encode_cons, List.flatMap_append, first, ih h.2, List.singleton_append]

/-- A text is left as it is if all of its characters are unreserved, and only then. -/
theorem escape_eq_self_iff : escape s = s ↔ ∀ c ∈ s.toList, isUnreserved c = true := by
  rw [← String.toList_inj, toList_escape]
  constructor
  · intro h
    -- no character has fewer octets than one, and no octet is escaped into fewer characters
    have short : ((encode s.toList).flatMap escapeOctet).length ≤ (encode s.toList).length := by
      rw [h, ← leads_encode]
      exact List.countP_le_length
    rw [← h]
    exact unreserved_of_length_le short
  · exact flatMap_encode_of_unreserved

end Escapes

end Text

/-! ## Cells of capital letters -/

namespace Macro

open Text

section Letters

variable {values : Values} {localNames : List String} {site : Site} {letter letter' : Char}
  {value : String}

/-- Letters that differ in case name the same values. -/
theorem Values.Names.congr (h : letter'.toLower = letter.toLower)
    (named : values.Names localNames site letter value) :
    values.Names localNames site letter' value := by
  cases named with
  | clientDomain hl known => exact .clientDomain (h.trans hl) known
  | readableAddress hl => exact .readableAddress (h.trans hl)
  | receivingDomain hl => exact .receivingDomain (h.trans hl)
  | timestamp hl => exact .timestamp (h.trans hl)
  | _ hl =>
    constructor
    exact h.trans hl

/-- A cell may have another letter in the same place. -/
theorem Cell.Written.lettered {cell : Cell} {cs : List Char} (h : Written (letter :: cs) cell)
    (alpha : letter'.isAlpha = true) :
    cell.letter = letter ∧ Written (letter' :: cs) { cell with letter := letter' } := by
  cases h with
  | forward _ hd hs => exact ⟨rfl, .forward alpha hd hs⟩
  | reversed _ hd hm hs => exact ⟨rfl, .reversed alpha hd hm hs⟩

/-- A capital and its small letter are letters. -/
theorem of_isUpper (h : letter.isUpper = true) : letter.isAlpha = true ∧
    letter.toLower.isAlpha = true ∧ letter.toLower.isUpper = false ∧
      letter.toLower.toLower = letter.toLower := by
  have alphanum : letter.isAlphanum = true := by
    show (letter.isUpper || letter.isLower || letter.isDigit) = true
    rw [h]
    rfl
  exact of_ascii (P := fun c => c.isUpper = true → c.isAlpha = true ∧ c.toLower.isAlpha = true ∧
    c.toLower.isUpper = false ∧ c.toLower.toLower = c.toLower) (by decide)
    (ascii_of_isAlphanum alphanum) h

theorem expandCell_eq_ok_iff {content : List Char} {text : String} :
    expandCell values localNames site content = .ok text ↔
      Yields values localNames site (.cell content) text :=
  @expandElement_eq_ok_iff values localNames site "" text (.cell content)

/-- A cell of a capital letter comes to what the same cell of the small letter comes to, escaped. -/
theorem expandCell_capital (capital : letter.isUpper = true) (cs : List Char) (text : String) :
    expandCell values localNames site (letter :: cs) = .ok text ↔
      ∃ plain, expandCell values localNames site (letter.toLower :: cs) = .ok plain ∧
        text = escape plain := by
  obtain ⟨alpha, alpha', small, same⟩ := of_isUpper capital
  simp only [expandCell_eq_ok_iff]
  constructor
  · intro h
    cases h with
    | @cell _ cell value plain written named transforms =>
      obtain ⟨rfl, written'⟩ := written.lettered alpha'
      have yields := Yields.cell written' (named.congr same) transforms
      rw [if_neg (by simp [small])] at yields
      exact ⟨plain, yields, if_pos capital⟩
  · rintro ⟨plain, h, rfl⟩
    generalize hc : letter.toLower :: cs = content at h
    cases h with
    | @cell _ cell value plain written named transforms =>
      subst hc
      obtain ⟨hl, written'⟩ := written.lettered alpha
      have named' : values.Names localNames site letter value :=
        named.congr (by rw [hl, same])
      have yields := Yields.cell written' named' transforms
      rw [if_pos capital] at yields
      rwa [hl, if_neg (by simp [small])]

/-- What is escaped is safe, made of unreserved characters and escapes only, and says what the octets
of the text are; so no two texts are escaped alike. Texts are escaped one behind the other, and one
without anything to escape is left as it is. The value of a capital letter is that of the small one,
escaped. -/
theorem escape_reversible :
    (∀ s : String, Escaped (escape s).toList ∧
      unescape? (escape s).toList = some (encode s.toList) ∧
      (escape s = s ↔ ∀ c ∈ s.toList, isUnreserved c = true)) ∧
    (∀ s t : String, (escape s = escape t ↔ s = t) ∧ escape (s ++ t) = escape s ++ escape t) ∧
    ∀ (values : Values) (localNames : List String) (site : Site) (letter : Char) (cs : List Char)
      (text : String), letter.isUpper = true →
        (expandCell values localNames site (letter :: cs) = .ok text ↔
          ∃ plain, expandCell values localNames site (letter.toLower :: cs) = .ok plain ∧
            text = escape plain) := by
  refine ⟨fun s => ⟨?_, unescape?_escape s, escape_eq_self_iff⟩,
    fun s t => ⟨escape_inj, escape_append s t⟩, ?_⟩
  · rw [toList_escape]
    exact escaped_flatMap _
  · intro values localNames site letter cs text capital
    exact expandCell_capital capital cs text

/-- An octet that is no unreserved character is escaped, and so is each of a character of two. -/
example : escape "a b@é" = "a%20b%40%C3%A9" := by decide

end Letters

end Macro

end SenderPolicy
