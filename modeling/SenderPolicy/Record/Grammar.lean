import SenderPolicy.Macro

/-!
# Texts inside terms

The argument of a term is a template in a narrower alphabet. A macro-string is any such template;
a domain-spec is one that ends like a domain: in a label that is no number, or in something that
is replaced.

## Main definitions

* `isMacroString`: the text is a template in the alphabet of records
* `isTopLabel`: the label may be the last one of a domain
* `isDomainSpec`: the macro-string ends like a domain
* `cutLength`: a text and the digits behind a mark at its end
-/

namespace SenderPolicy.Record

open Text Macro

/-- The letters that name values, in either case. -/
def valueLetters : List Char :=
  ['s', 'l', 'o', 'd', 'i', 'p', 'v', 'h', 'c', 'r', 't']

/-- The visible ASCII characters but the percent sign. -/
def isMacroLiteral (c : Char) : Bool :=
  '!' ≤ c && c ≤ '~' && c ≠ '%'

/-- The element may stand in a record. -/
def isAdmitted : Element → Bool
  | .literal c => isMacroLiteral c
  | .percent | .space | .escapedSpace => true
  | .cell content =>
    match Cell.read content with
    | some cell => valueLetters.contains cell.letter.toLower
    | none => false
  | .stray => false

/-- The text is a template in the alphabet of records. -/
def isMacroString (cs : List Char) : Bool :=
  (elements cs).all isAdmitted

/-- The label may be the last one of a domain: it has letters, digits and inner hyphens, and not
digits alone. -/
def isTopLabel (cs : List Char) : Bool :=
  cs.all (fun c => c.isAlphanum || c = '-') && cs.any (fun c => c.isAlpha || c = '-') &&
    cs.head? ≠ some '-' && cs.getLast? ≠ some '-'

/-- The characters behind the last replacement of a template. -/
def literalTail (es : List Element) : List Char :=
  (es.foldl (fun tail e =>
    match e with
    | .literal c => c :: tail
    | _ => []) []).reverse

/-- The literal end of a domain: a dot, the top label, and perhaps another dot. -/
def endsInTopLabel (tail : List Char) : Bool :=
  let cs := if tail.getLast? = some '.' then tail.dropLast else tail
  cs.contains '.' && isTopLabel (cs.reverse.takeWhile (· ≠ '.')).reverse

/-- The macro-string ends like a domain: in a replacement or in a top label. -/
def isDomainSpec (cs : List Char) : Bool :=
  isMacroString cs &&
    match (elements cs).getLast? with
    | none => false
    | some e => e.isExpansion || endsInTopLabel (literalTail (elements cs))

/-- A text and the digits behind a mark at its end, if it ends so. -/
def cutLength (mark cs : List Char) : List Char × Option (List Char) :=
  let digits := (cs.reverse.takeWhile Char.isDigit).reverse
  let front := (cs.reverse.dropWhile Char.isDigit).reverse
  if digits ≠ [] ∧ mark.isSuffixOf front then (front.take (front.length - mark.length), some digits)
  else (cs, none)

/-- The argument of a mechanism that looks addresses up: what stands in front of the lengths, and
the digits of the two lengths. -/
def cutLengths (cs : List Char) : List Char × Option (List Char) × Option (List Char) :=
  -- the IPv6 length stands last, so it is cut first
  let (front, six) := cutLength ['/', '/'] cs
  let (domain, four) := cutLength ['/'] front
  (domain, four, six)

end SenderPolicy.Record
