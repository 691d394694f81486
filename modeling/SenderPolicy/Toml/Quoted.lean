import SenderPolicy.Text

/-!
# Quoted texts

A text stands between double quotes, with escapes for characters that cannot be written, or
between single quotes, without. Three quotes in a row open a text that may run over several
lines: a line break right behind them does not count, and one or two quotes may stand inside it,
also at its very end.

## Main definitions

* `Escape`, `escapeStep`: the automaton that reads escapes
* `readShort`, `readLong`: a text in double quotes, read on from behind the opening quotes
* `readLiteral`, `readLongLiteral`: a text in single quotes
* `quoted`: a text in quotes of any kind
-/

namespace SenderPolicy.Toml

open Text

/-- The characters that a line may hold: all but control characters, of which only the tab is
allowed. -/
def isPlain (c : Char) : Bool :=
  c = '\t' || (' ' ≤ c && c ≠ '\x7f')

/-- The blanks inside a line. -/
def isSpace (c : Char) : Bool :=
  c = ' ' || c = '\t'

/-! ## Escapes -/

/-- Where the reader of a text in double quotes stands. -/
inductive Escape where
  /-- Outside of escapes. -/
  | none
  /-- Behind a backslash. -/
  | started
  /-- In the number of a character, with so many digits to come. -/
  | number (missing value : Nat)
  /-- In blanks behind a backslash, which have to end the line. -/
  | lineEnd
  /-- In the white space behind a backslash at the end of a line. -/
  | skipping
deriving DecidableEq, Repr

/-- The character that the letter of an escape stands for. -/
def escapedChar? : Char → Option Char
  | 'b' => some '\x08'
  | 't' => some '\t'
  | 'n' => some '\n'
  | 'f' => some '\x0c'
  | 'r' => some '\r'
  | '"' => some '"'
  | '\\' => some '\\'
  | _ => none

/-- The character of a number, unless there is none. -/
def charOf? (n : Nat) : Option Char :=
  if n.isValidChar then some (Char.ofNat n) else none

/-- Reads one character of an escape: the text that it completes, and where the reader stands
behind it. -/
def escapeStep : Escape → Char → Option (List Char × Escape)
  | .started, 'u' => some ([], .number 4 0)
  | .started, 'U' => some ([], .number 8 0)
  | .started, c => (escapedChar? c).map ([·], .none)
  | .number missing value, c =>
    if isHexDigit c then
      let value := 16 * value + digitValue c
      if missing ≤ 1 then (charOf? value).map ([·], .none)
      else some ([], .number (missing - 1) value)
    else none
  | _, _ => none

/-! ## Texts in quotes -/

/-- A text in double quotes and what follows it. -/
def readShort : Escape → List Char → Option (List Char × List Char)
  | _, [] => none
  | .none, '"' :: cs => some ([], cs)
  | .none, '\\' :: cs => readShort .started cs
  | .none, c :: cs =>
    if isPlain c then (readShort .none cs).map fun (text, rest) => (c :: text, rest) else none
  | escape, c :: cs =>
    match escapeStep escape c with
    | some (out, next) => (readShort next cs).map fun (text, rest) => (out ++ text, rest)
    | none => none

/-- What follows the quotes that close a long text; up to two more quotes belong to the text. -/
def closing (quote : Char) (cs : List Char) : List Char × List Char :=
  let inside := (cs.takeWhile (· = quote)).take 2
  (inside, cs.drop inside.length)

/-- A text in three double quotes and what follows it. -/
def readLong : Escape → List Char → Option (List Char × List Char)
  | _, [] => none
  | .none, '"' :: '"' :: '"' :: cs => some (closing '"' cs)
  | .none, '\n' :: cs => (readLong .none cs).map fun (text, rest) => ('\n' :: text, rest)
  | .none, '\r' :: '\n' :: cs => (readLong .none cs).map fun (text, rest) => ('\n' :: text, rest)
  | .none, '\\' :: cs => readLong .started cs
  | .none, c :: cs =>
    if isPlain c then (readLong .none cs).map fun (text, rest) => (c :: text, rest) else none
  | .started, '\n' :: cs | .lineEnd, '\n' :: cs | .skipping, '\n' :: cs => readLong .skipping cs
  | .started, '\r' :: '\n' :: cs | .lineEnd, '\r' :: '\n' :: cs | .skipping, '\r' :: '\n' :: cs =>
    readLong .skipping cs
  | .skipping, '"' :: '"' :: '"' :: cs => some (closing '"' cs)
  | .skipping, '\\' :: cs => readLong .started cs
  | .skipping, c :: cs =>
    if isSpace c then readLong .skipping cs
    else if isPlain c then (readLong .none cs).map fun (text, rest) => (c :: text, rest)
    else none
  | .lineEnd, c :: cs => if isSpace c then readLong .lineEnd cs else none
  | escape, c :: cs =>
    if escape = .started ∧ isSpace c then readLong .lineEnd cs
    else
      match escapeStep escape c with
      | some (out, next) => (readLong next cs).map fun (text, rest) => (out ++ text, rest)
      | none => none

/-- A text in single quotes and what follows it. -/
def readLiteral : List Char → Option (List Char × List Char)
  | [] => none
  | c :: cs =>
    if c = '\x27' then some ([], cs)
    else if isPlain c then (readLiteral cs).map fun (text, rest) => (c :: text, rest)
    else none

/-- A text in three single quotes and what follows it. -/
def readLongLiteral : List Char → Option (List Char × List Char)
  | [] => none
  | '\x27' :: '\x27' :: '\x27' :: cs => some (closing '\x27' cs)
  | '\n' :: cs => (readLongLiteral cs).map fun (text, rest) => ('\n' :: text, rest)
  | '\r' :: '\n' :: cs => (readLongLiteral cs).map fun (text, rest) => ('\n' :: text, rest)
  | c :: cs =>
    if isPlain c then (readLongLiteral cs).map fun (text, rest) => (c :: text, rest) else none

/-- A text behind the line break that may follow opening quotes. -/
def withoutLineBreak : List Char → List Char
  | '\n' :: cs => cs
  | '\r' :: '\n' :: cs => cs
  | cs => cs

/-- A text in quotes on one line, and what follows it. -/
def quotedLine : List Char → Option (List Char × List Char)
  | '"' :: cs => readShort .none cs
  | '\x27' :: cs => readLiteral cs
  | _ => none

/-- A text in quotes of any kind, and what follows it. -/
def quoted : List Char → Option (List Char × List Char)
  | '"' :: '"' :: '"' :: cs => readLong .none (withoutLineBreak cs)
  | '\x27' :: '\x27' :: '\x27' :: cs => readLongLiteral (withoutLineBreak cs)
  | cs => quotedLine cs

end SenderPolicy.Toml
