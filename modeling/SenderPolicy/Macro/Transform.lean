import SenderPolicy.Error
import SenderPolicy.Macro

/-!
# Parts of a value

A cell cuts its value at its delimiters, a dot unless it names others, reverses the parts if it
says so, keeps as many of the last as its digits say, and joins what it keeps by dots.

## Main definitions

* `Cell.parts`: the parts of a value in the order of the cell
* `keepLast`: the last parts, as many as the digits say
* `Cell.transform`: the transformed value
-/

namespace SenderPolicy.Macro

open Text

/-- The characters that part the value of a cell: a dot unless the cell names others. -/
def Cell.separators (cell : Cell) : List Char :=
  if cell.delimiters = [] then ['.'] else cell.delimiters

/-- The parts of a value in the order of the cell. -/
def Cell.parts (cell : Cell) (value : List Char) : List (List Char) :=
  let ps := pieces cell.separators.contains value
  if cell.isReversed then ps.reverse else ps

/-- The last parts, as many as the digits say, all if there are no digits. To keep none is
refused. -/
def keepLast {α : Type} (digits : List Char) (parts : List α) : Except Error (List α) :=
  if digits = [] then .ok parts
  else if digitsValue 10 digits = 0 then .error .keepsNoPart
  -- a number beyond the number of parts keeps them all
  else .ok (parts.drop (parts.length - digitsValue 10 digits))

/-- The value of a cell, cut, reversed, shortened and joined by dots. -/
def Cell.transform (cell : Cell) (value : String) : Except Error String :=
  (keepLast cell.digits (cell.parts value.toList)).map fun ps => String.ofList (joined ['.'] ps)

end SenderPolicy.Macro
