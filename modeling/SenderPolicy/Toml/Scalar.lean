import SenderPolicy.Config.Setting

/-!
# Words of a document

A value without quotes or brackets is a word: a truth value, a whole number of 64 bits, a number
with a fraction or an exponent, or a point in time. No setting takes one of the last two, so of a
fraction only its form counts; a point in time stands for a table with its text.

## Main definitions

* `integer?`: a whole number in base ten, sixteen, eight or two
* `isFraction`: a number with a fraction or an exponent
* `moment?`: a date, a time, or both
* `word?`: the setting of a word
-/

namespace SenderPolicy.Toml

open Text

/-! ## Numbers -/

/-- Digits of a class in which single underscores may stand, without them. -/
def digits? (isDigit : Char → Bool) (cs : List Char) : Option (List Char) :=
  let groups := pieces (· = '_') cs
  if groups.all fun group => group ≠ [] ∧ group.all isDigit then some groups.flatten else none

/-- A number in base ten; only zero starts with a zero. -/
def decimal? (cs : List Char) : Option Nat :=
  if cs.head? = some '0' ∧ cs.length ≠ 1 then none
  else (digits? Char.isDigit cs).map (digitsValue 10)

/-- A number in another base. -/
def based? (base : Nat) (isDigit : Char → Bool) (cs : List Char) : Option Int :=
  (digits? isDigit cs).map fun digits => (digitsValue base digits : Int)

/-- A number, before it is known to fit. -/
def wide? : List Char → Option Int
  | '0' :: 'x' :: cs => based? 16 isHexDigit cs
  | '0' :: 'o' :: cs => based? 8 (fun c => '0' ≤ c && c ≤ '7') cs
  | '0' :: 'b' :: cs => based? 2 (fun c => c = '0' || c = '1') cs
  | '-' :: cs => (decimal? cs).map fun n => -(n : Int)
  | '+' :: cs => (decimal? cs).map fun n => (n : Int)
  | cs => (decimal? cs).map fun n => (n : Int)

/-- A whole number of 64 bits. -/
def integer? (cs : List Char) : Option Int :=
  match wide? cs with
  | some n => if Int64.minValue.toInt ≤ n ∧ n ≤ Int64.maxValue.toInt then some n else none
  | none => none

/-- A word without a sign in front of it, and whether the sign is a minus. -/
def unsigned : List Char → Bool × List Char
  | '-' :: cs => (true, cs)
  | '+' :: cs => (false, cs)
  | cs => (false, cs)

/-- The least number that no double reaches: it is rounded to infinity. -/
def overflowBound : Nat := Nat.pow 2 1024 - Nat.pow 2 970

/-- A decimal with its point moved is rounded to infinity. Far from the bound the number of digits
decides. -/
def overflows (mantissa : Nat) (scale : Int) : Bool :=
  let size : Int := (Nat.toDigits 10 mantissa).length + scale
  if mantissa = 0 ∨ size < 300 then false
  else if 320 < size then true
  else if 0 ≤ scale then overflowBound ≤ mantissa * Nat.pow 10 scale.toNat
  else overflowBound * Nat.pow 10 (-scale).toNat ≤ mantissa

/-- The parts of a number in front of its exponent: the digits before the point, and those behind
it. -/
def mantissa? (cs : List Char) : Option (Nat × Option (List Char)) :=
  match pieces (· = '.') cs with
  | [whole] => (decimal? whole).map (·, none)
  | [whole, fraction] => do
    return (← decimal? whole, some (← digits? Char.isDigit fraction))
  | _ => none

/-- An exponent. -/
def exponent? (cs : List Char) : Option Int :=
  let (isNegative, cs) := unsigned cs
  (digits? Char.isDigit cs).map fun digits =>
    if isNegative then -(digitsValue 10 digits : Int) else digitsValue 10 digits

/-- A number with a fraction or an exponent that does not exceed the doubles. -/
def isDecimal (isNegative : Bool) (cs : List Char) : Bool :=
  let fits (whole : Nat) (fraction : List Char) (exponent : Int) : Bool :=
    isNegative || !overflows (whole * Nat.pow 10 fraction.length + digitsValue 10 fraction)
      (exponent - fraction.length)
  match pieces (fun c => c = 'e' || c = 'E') cs with
  | [front] =>
    match mantissa? front with
    | some (whole, some fraction) => fits whole fraction 0
    | _ => false
  | [front, back] =>
    match mantissa? front, exponent? back with
    | some (whole, fraction), some exponent => fits whole (fraction.getD []) exponent
    | _, _ => false
  | _ => false

/-- A number that is not whole. -/
def isFraction (cs : List Char) : Bool :=
  let (isNegative, cs) := unsigned cs
  cs = "inf".toList || cs = "nan".toList || isDecimal isNegative cs

/-! ## Points in time -/

/-- Two digits between two bounds. -/
def isPair (least greatest : Nat) (a b : Char) : Bool :=
  match readDigits [a, b] with
  | some n => least ≤ n && n ≤ greatest
  | none => false

/-- The days of a month. -/
def daysOf (year month : Nat) : Nat :=
  if month = 2 then
    if year % 4 = 0 ∧ (year % 100 ≠ 0 ∨ year % 400 = 0) then 29 else 28
  else if month = 4 ∨ month = 6 ∨ month = 9 ∨ month = 11 then 30
  else 31

/-- The date that a word starts with, and what follows it. -/
def date? : List Char → Option (List Char × List Char)
  | y :: y' :: y'' :: y''' :: '-' :: m :: m' :: '-' :: d :: d' :: cs =>
    match readDigits [y, y', y'', y'''], readDigits [m, m'] with
    | some year, some month =>
      if 1 ≤ month ∧ month ≤ 12 ∧ isPair 1 (daysOf year month) d d' then
        some ([y, y', y'', y''', '-', m, m', '-', d, d'], cs)
      else none
    | _, _ => none
  | _ => none

/-- The fraction of a second in its shortest form, of which nine digits count. -/
def fractionText (digits : List Char) : List Char :=
  let kept := dropTrailing (· = '0') (digits.take 9)
  if kept = [] then [] else '.' :: kept

/-- The time that a word starts with, and what follows it. -/
def time? : List Char → Option (List Char × List Char)
  | h :: h' :: ':' :: m :: m' :: ':' :: s :: s' :: cs =>
    if isPair 0 23 h h' ∧ isPair 0 59 m m' ∧ isPair 0 60 s s' then
      let whole := [h, h', ':', m, m', ':', s, s']
      match cs with
      | '.' :: cs =>
        let digits := cs.takeWhile Char.isDigit
        if digits = [] then none
        else some (whole ++ fractionText digits, cs.dropWhile Char.isDigit)
      | cs => some (whole, cs)
    else none
  | _ => none

/-- The distance from universal time, if any is given. -/
def offset? : List Char → Option (List Char)
  | [] => some []
  | ['Z'] | ['z'] => some ['Z']
  | [sign, h, h', ':', m, m'] =>
    if (sign = '+' ∨ sign = '-') ∧ isPair 0 23 h h' ∧ isPair 0 59 m m' then
      some ((if [h, h', m, m'].all (· = '0') then '+' else sign) :: [h, h', ':', m, m'])
    else none
  | _ => none

/-- The text of a date, a time, or both. -/
def moment? (cs : List Char) : Option (List Char) :=
  match date? cs with
  | some (date, []) => some date
  | some (date, c :: rest) =>
    if c = 'T' ∨ c = 't' ∨ c = ' ' then do
      let (time, rest) ← time? rest
      return date ++ 'T' :: time ++ (← offset? rest)
    else none
  | none =>
    match time? cs with
    | some (time, []) => some time
    | _ => none

/-- The name under which a table holds the text of a point in time. -/
def momentKey : String := "$__toml_private_datetime"

/-! ## Words -/

/-- The setting of a word. -/
def word? (cs : List Char) : Option Setting :=
  if cs = "true".toList then some (.flag true)
  else if cs = "false".toList then some (.flag false)
  else
    match integer? cs with
    | some n => some (.integer n)
    | none =>
      if isFraction cs then some .other
      else (moment? cs).map fun text => .table [(momentKey, .text (String.ofList text))]

end SenderPolicy.Toml
