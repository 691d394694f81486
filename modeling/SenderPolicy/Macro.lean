import SenderPolicy.Text

/-!
# Templates

Records and explanations are written as templates. A template is read from left to right as
literal characters, three two-character escapes, and cells `%{…}` that are replaced by a value of
the check. A cell names its value by a letter and says how to cut it into parts, whether to
reverse them and how many of them to keep.

## Main definitions

* `Cell`, `Cell.read`: a cell and how its text is read
* `Element`, `elements`: the elements of a template; the automaton `Reading` reads them
* `Element.isExpansion`: the element stands for something other than itself

## Main results

* `flatMap_text_elements`: a template is what the texts of its elements make up
* `Cell.written_of_read`, `Cell.Written.read`: how a cell is written
-/

namespace SenderPolicy.Macro

open Text

/-- A replacement by a value: the letter that names it, the digits that say how many parts to
keep, whether the parts are reversed, and the characters that part them. -/
structure Cell where
  letter : Char
  digits : List Char
  isReversed : Bool
  delimiters : List Char
deriving DecidableEq, Repr

/-- The characters at which a cell may cut its value. -/
def isDelimiter (c : Char) : Bool :=
  c = '.' || c = '-' || c = '+' || c = ',' || c = '/' || c = '_' || c = '='

/-- The text between the braces of a cell: a letter, digits, perhaps an `r`, delimiters. -/
def Cell.read (content : List Char) : Option Cell :=
  match content with
  | [] => none
  | letter :: cs =>
    let digits := cs.takeWhile Char.isDigit
    let behind := cs.dropWhile Char.isDigit
    let isReversed := behind.head? = some 'r' ∨ behind.head? = some 'R'
    let delimiters := if isReversed then behind.tail else behind
    if letter.isAlpha ∧ delimiters.all isDelimiter then
      some ⟨letter, digits, isReversed, delimiters⟩
    else none

/-- An element of a template. -/
inductive Element where
  /-- A character that stands for itself. -/
  | literal (c : Char)
  /-- `%%`, which stands for a percent sign. -/
  | percent
  /-- `%_`, which stands for a space. -/
  | space
  /-- `%-`, which stands for an escaped space. -/
  | escapedSpace
  /-- `%{`, the content, and the next closing brace. -/
  | cell (content : List Char)
  /-- A percent sign that starts none of these; reading ends there. -/
  | stray
deriving DecidableEq, Repr

/-- The element stands for something other than itself. -/
def Element.isExpansion : Element → Bool
  | percent | space | escapedSpace | cell _ => true
  | literal _ | stray => false

/-- Where a reader of templates stands: between elements, behind a percent sign, or inside a
cell, whose content so far is kept with its last character in front. -/
inductive Reading where
  | between
  | behindPercent
  | inCell (content : List Char)
deriving DecidableEq, Repr

/-- The elements of the rest of a template. -/
def elementsFrom : Reading → List Char → List Element
  | .between, [] => []
  | .between, c :: cs =>
    if c = '%' then elementsFrom .behindPercent cs else .literal c :: elementsFrom .between cs
  | .behindPercent, [] => [.stray]
  | .behindPercent, c :: cs =>
    if c = '%' then .percent :: elementsFrom .between cs
    else if c = '_' then .space :: elementsFrom .between cs
    else if c = '-' then .escapedSpace :: elementsFrom .between cs
    else if c = '\x7b' then elementsFrom (.inCell []) cs
    else [.stray]
  | .inCell _, [] => [.stray]
  | .inCell content, c :: cs =>
    if c = '\x7d' then .cell content.reverse :: elementsFrom .between cs
    else elementsFrom (.inCell (c :: content)) cs

/-- The elements of a template, from left to right. -/
def elements (template : List Char) : List Element :=
  elementsFrom .between template

/-- The text of an element. -/
def Element.text : Element → List Char
  | literal c => [c]
  | percent => ['%', '%']
  | space => ['%', '_']
  | escapedSpace => ['%', '-']
  | cell content => '%' :: '\x7b' :: content ++ ['\x7d']
  | stray => ['%']

/-! ## Elements and their texts -/

/-- A template is what the texts of its elements make up, unless reading ends at a stray percent
sign. -/
theorem flatMap_text_elements {template : List Char} (h : .stray ∉ elements template) :
    (elements template).flatMap Element.text = template := by
  have behind {e : Element} {es : List Element} {rest : List Char} (h : .stray ∉ e :: es)
      (ih : .stray ∉ es → es.flatMap Element.text = rest) :
      (e :: es).flatMap Element.text = e.text ++ rest := by
    rw [List.flatMap_cons, ih fun hm => h (List.mem_cons_of_mem _ hm)]
  -- what was read since the last element stands in front of the rest
  have go : ∀ (reading : Reading) (rest : List Char), .stray ∉ elementsFrom reading rest →
      (elementsFrom reading rest).flatMap Element.text =
        match reading with
        | .between => rest
        | .behindPercent => '%' :: rest
        | .inCell content => '%' :: '\x7b' :: content.reverse ++ rest := by
    intro reading rest h
    fun_induction elementsFrom reading rest with
    | case1 => rfl
    | case2 cs ih => exact ih h
    | case3 c cs hc ih => exact behind h ih
    | case4 => exact absurd List.mem_cons_self h
    | case5 cs ih => exact behind h ih
    | case6 cs hc ih => exact behind h ih
    | case7 cs hc hc' ih => exact behind h ih
    | case8 cs hc hc' hc'' ih => exact ih h
    | case9 => exact absurd List.mem_cons_self h
    | case10 => exact absurd List.mem_cons_self h
    | case11 content cs ih =>
      rw [behind h ih, Element.text]
      simp
    | case12 content c cs hc ih =>
      rw [ih h]
      simp
  exact go .between template h

theorem elementsFrom_inCell {content : List Char} (h : '\x7d' ∉ content) (read cs : List Char) :
    elementsFrom (.inCell read) (content ++ '\x7d' :: cs) =
      .cell (read.reverse ++ content) :: elements cs := by
  induction content generalizing read with
  | nil => simp [elementsFrom, elements]
  | cons c content ih =>
    rw [List.mem_cons, not_or] at h
    rw [List.cons_append, elementsFrom, if_neg (Ne.symm h.1), ih h.2]
    simp

/-- A cell ends at its first closing brace. -/
theorem elements_cell {content : List Char} (h : '\x7d' ∉ content) (cs : List Char) :
    elements ('%' :: '\x7b' :: (content ++ '\x7d' :: cs)) = .cell content :: elements cs := by
  have := elementsFrom_inCell h [] cs
  simpa [elements, elementsFrom] using this

theorem elements_literal {c : Char} (h : c ≠ '%') (cs : List Char) :
    elements (c :: cs) = .literal c :: elements cs := by
  rw [elements, elementsFrom, if_neg h, elements]

/-- A template without percent signs stands for itself. -/
theorem elements_plain {cs : List Char} (h : '%' ∉ cs) : elements cs = cs.map .literal := by
  induction cs with
  | nil => rfl
  | cons c cs ih =>
    rw [List.mem_cons, not_or] at h
    rw [elements_literal (Ne.symm h.1), ih h.2, List.map_cons]

/-! ## How a cell is written -/

/-- The text of a cell: its letter, its digits, an `r` in either case if it is reversed, and its
delimiters. -/
inductive Cell.Written : List Char → Cell → Prop
  | forward {letter : Char} {digits delimiters : List Char} (hl : letter.isAlpha = true)
      (hd : ∀ c ∈ digits, c.isDigit = true) (hs : ∀ c ∈ delimiters, isDelimiter c = true) :
      Written (letter :: (digits ++ delimiters)) ⟨letter, digits, false, delimiters⟩
  | reversed {letter mark : Char} {digits delimiters : List Char} (hl : letter.isAlpha = true)
      (hd : ∀ c ∈ digits, c.isDigit = true) (hm : mark = 'r' ∨ mark = 'R')
      (hs : ∀ c ∈ delimiters, isDelimiter c = true) :
      Written (letter :: (digits ++ mark :: delimiters)) ⟨letter, digits, true, delimiters⟩

theorem of_isDelimiter {c : Char} (h : isDelimiter c = true) :
    c.isDigit = false ∧ c ≠ 'r' ∧ c ≠ 'R' ∧ c ≠ '\x7d' := by
  simp only [isDelimiter, Bool.or_eq_true, decide_eq_true_eq] at h
  rcases h with (((((rfl | rfl) | rfl) | rfl) | rfl) | rfl) | rfl <;> decide

/-- What is read as a cell is written as one. -/
theorem Cell.written_of_read {content : List Char} {cell : Cell}
    (h : Cell.read content = some cell) : Written content cell := by
  cases content with
  | nil => cases h
  | cons letter cs =>
    have cut := List.takeWhile_append_dropWhile (p := Char.isDigit) (l := cs)
    have hd : ∀ c ∈ cs.takeWhile Char.isDigit, c.isDigit = true :=
      List.all_eq_true.mp List.all_takeWhile
    simp only [Cell.read] at h
    generalize cs.takeWhile Char.isDigit = digits at h cut hd
    generalize cs.dropWhile Char.isDigit = behind at h cut
    subst cut
    -- an `r` behind the digits is taken for the reversal, because no delimiter is one
    by_cases hr : behind.head? = some 'r' ∨ behind.head? = some 'R'
    · rw [if_pos hr] at h
      split at h
      · rename_i hc
        obtain ⟨mark, hm⟩ : ∃ mark, behind = mark :: behind.tail := by
          cases behind with
          | nil => simp at hr
          | cons mark delimiters => exact ⟨mark, rfl⟩
        cases h
        rw [hm, List.head?_cons, Option.some.injEq, Option.some.injEq] at hr
        rw [hm]
        simpa [hr] using Written.reversed hc.1 hd hr (List.all_eq_true.mp hc.2)
      · cases h
    · rw [if_neg hr] at h
      split at h
      · rename_i hc
        cases h
        simpa [hr] using Written.forward hc.1 hd (List.all_eq_true.mp hc.2)
      · cases h

/-- A cell is read as it is written. -/
theorem Cell.Written.read {content : List Char} {cell : Cell} (h : Written content cell) :
    Cell.read content = some cell := by
  cases h with
  | @forward letter digits delimiters hl hd hs =>
    have stop : ∀ c ∈ delimiters.head?, c.isDigit = false ∧ c ≠ 'r' ∧ c ≠ 'R' ∧ c ≠ '\x7d' :=
      fun c hc => of_isDelimiter (hs c (List.mem_of_mem_head? hc))
    have unmarked : ¬ (delimiters.head? = some 'r' ∨ delimiters.head? = some 'R') := by
      rintro (h | h)
      · exact (stop _ h).2.1 rfl
      · exact (stop _ h).2.2.1 rfl
    simp only [Cell.read, takeWhile_append_of_stop hd fun c hc => (stop c hc).1,
      dropWhile_append_of_stop hd fun c hc => (stop c hc).1, unmarked, decide_false, if_false]
    rw [if_pos ⟨hl, List.all_eq_true.mpr hs⟩]
  | @reversed letter mark digits delimiters hl hd hm hs =>
    have stop : ∀ c ∈ (mark :: delimiters).head?, c.isDigit = false := by
      rintro c ⟨rfl⟩
      rcases hm with rfl | rfl <;> rfl
    have marked : (mark :: delimiters).head? = some 'r' ∨
        (mark :: delimiters).head? = some 'R' := by
      simpa using hm
    simp only [Cell.read, takeWhile_append_of_stop hd stop, dropWhile_append_of_stop hd stop,
      marked, decide_true, if_true, List.tail_cons]
    rw [if_pos ⟨hl, List.all_eq_true.mpr hs⟩]

/-- No closing brace stands inside a cell. -/
theorem Cell.Written.closing_not_mem {content : List Char} {cell : Cell}
    (h : Written content cell) : '\x7d' ∉ content := by
  intro hm
  cases h with
  | forward hl hd hs =>
    rw [List.mem_cons, List.mem_append] at hm
    rcases hm with rfl | hm | hm
    · exact absurd hl (by decide)
    · exact absurd (hd _ hm) (by decide)
    · exact absurd (hs _ hm) (by decide)
  | reversed hl hd hr hs =>
    rw [List.mem_cons, List.mem_append, List.mem_cons] at hm
    rcases hm with rfl | hm | rfl | hm
    · exact absurd hl (by decide)
    · exact absurd (hd _ hm) (by decide)
    · exact absurd hr (by decide)
    · exact absurd (hs _ hm) (by decide)

end SenderPolicy.Macro
