import SenderPolicy.Toml.Draft
import SenderPolicy.Toml.Quoted
import SenderPolicy.Toml.Scalar

/-!
# Documents

A document is a list of lines: headers, keys with values, comments. A value may run over several
lines. The text is read from the left to the list of its statements, and the statements fill a
table; a text that breaks a rule anywhere is no document.

## Main definitions

* `key`: the parts of a key between dots
* `readValue`: a value and what follows it
* `Statement`, `statements`: the statements of a text
* `read`: the setting of a text
-/

namespace SenderPolicy.Toml

open Text

/-- Neither keys nor values are nested this deep. -/
def nestingLimit : Nat := 80

/-! ## Between values -/

/-- A text behind the blanks at its start. -/
def blanks (cs : List Char) : List Char :=
  cs.dropWhile isSpace

/-- A text behind the blanks, line breaks and comments at its start. -/
def gap (inComment : Bool) : List Char → List Char
  | [] => []
  | '\n' :: cs => gap false cs
  | '\r' :: '\n' :: cs => gap false cs
  | c :: cs =>
    if inComment then if isPlain c then gap true cs else c :: cs
    else if c = '#' then gap true cs
    else if isSpace c then gap false cs
    else c :: cs

/-- What follows the end of a line, in front of which a comment may stand. -/
def lineEnd (cs : List Char) : Option (List Char) :=
  let cs := blanks cs
  -- a comment runs to the first character that no line may hold
  match if cs.head? = some '#' then cs.dropWhile isPlain else cs with
  | [] => some []
  | '\n' :: cs => some cs
  | '\r' :: '\n' :: cs => some cs
  | _ => none

/-! ## Keys -/

/-- The characters of keys without quotes. -/
def isBare (c : Char) : Bool :=
  c.isAlphanum || c = '_' || c = '-'

/-- One part of a key and what follows it. -/
def keyPart (cs : List Char) : Option (String × List Char) :=
  let bare := cs.takeWhile isBare
  if bare ≠ [] then some (String.ofList bare, cs.dropWhile isBare)
  else (quotedLine cs).map fun (part, rest) => (String.ofList part, rest)

/-- The parts of a key, the last one by itself, and what follows the key and its blanks. There are
at most as many parts as allowed. -/
def key : Nat → List Char → Option ((List String × String) × List Char)
  | 0, _ => none
  | allowed + 1, cs => do
    let (part, rest) ← keyPart (blanks cs)
    match blanks rest with
    | '.' :: rest =>
      let ((path, last), rest) ← key allowed rest
      return ((part :: path, last), rest)
    | rest => return (([], part), rest)

/-! ## Values -/

/-- The characters of words. -/
def isWordChar (c : Char) : Bool :=
  isBare c || c = '+' || c = '.' || c = ':'

/-- A word and what follows it: a date and a time may have a blank in between. -/
def takeWord (cs : List Char) : List Char × List Char :=
  let first := cs.takeWhile isWordChar
  -- the blank joins the words only between a whole date and a digit
  match (date? first), cs.dropWhile isWordChar with
  | some (_, []), ' ' :: c :: rest =>
    if c.isDigit then
      (first ++ ' ' :: (c :: rest).takeWhile isWordChar, (c :: rest).dropWhile isWordChar)
    else (first, ' ' :: c :: rest)
  | _, rest => (first, rest)

/-- A value without brackets and what follows it. -/
def readSimple (cs : List Char) : Option (Setting × List Char) :=
  match quoted cs with
  | some (text, rest) => some (.text (String.ofList text), rest)
  | none =>
    let (word, rest) := takeWord cs
    (word? word).map (·, rest)

/-- The values of a list and what follows its closing bracket. There are at most as many values as
allowed. -/
def readItems (read : List Char → Option (Setting × List Char)) :
    Nat → List Char → Option (List Setting × List Char)
  | 0, _ => none
  | allowed + 1, cs =>
    match gap false cs with
    | ']' :: rest => some ([], rest)
    | cs => do
      let (value, rest) ← read cs
      match gap false rest with
      | ',' :: rest =>
        let (values, rest) ← readItems read allowed rest
        return (value :: values, rest)
      | ']' :: rest => return ([value], rest)
      | _ => none

/-- The entries of a table on one line, added to those before them, and what follows its closing
brace. There are at most as many entries as allowed. -/
def readEntries (read : List Char → Option (Setting × List Char)) :
    Nat → List (String × Draft) → List Char → Option (List (String × Draft) × List Char)
  | 0, _, _ => none
  | allowed + 1, entries, cs => do
    let ((path, last), rest) ← key (nestingLimit - 1) cs
    match rest with
    | '=' :: rest =>
      let (value, rest) ← read (blanks rest)
      let entries ← Draft.assign [] path last value entries
      match blanks rest with
      | ',' :: rest => readEntries read allowed entries rest
      | '\x7d' :: rest => return (entries, rest)
      | _ => none
    | _ => none

/-- A value and what follows it. It is nested at most as deep as allowed. -/
def readValue : Nat → List Char → Option (Setting × List Char)
  | allowed + 1, '[' :: cs => do
    let (values, rest) ← readItems (readValue allowed) (cs.length + 1) cs
    return (.list values, rest)
  | allowed + 1, '\x7b' :: cs =>
    match blanks cs with
    | '\x7d' :: rest => some (.table [], rest)
    | cs => do
      let (entries, rest) ← readEntries (readValue allowed) (cs.length + 1) [] cs
      return (.table (Draft.settings entries), rest)
  | _, cs => readSimple cs

/-! ## Statements -/

/-- A line that says something. -/
inductive Statement where
  /-- The lines below fill the table of a key. -/
  | table (path : List String) (key : String)
  /-- The lines below fill a further table in the list of a key. -/
  | element (path : List String) (key : String)
  /-- A key has a value. -/
  | assignment (path : List String) (key : String) (value : Setting)

/-- The statement at the start of a text and what follows its line. -/
def statement : List Char → Option (Statement × List Char)
  | '[' :: '[' :: cs => do
    let ((path, last), rest) ← key (nestingLimit - 1) cs
    match rest with
    | ']' :: ']' :: rest => return (.element path last, ← lineEnd rest)
    | _ => none
  | '[' :: cs => do
    let ((path, last), rest) ← key (nestingLimit - 1) cs
    match rest with
    | ']' :: rest => return (.table path last, ← lineEnd rest)
    | _ => none
  | cs => do
    let ((path, last), rest) ← key (nestingLimit - 1) cs
    match rest with
    | '=' :: rest =>
      let (value, rest) ← readValue (nestingLimit - 1) (blanks rest)
      return (.assignment path last value, ← lineEnd rest)
    | _ => none

/-- The statements of a text, of which there are at most as many as allowed. -/
def statements : Nat → List Char → Option (List Statement)
  | 0, _ => none
  | allowed + 1, cs =>
    match gap false cs with
    | [] => some []
    | cs => do
      let (first, rest) ← statement cs
      return first :: (← statements allowed rest)

/-- The entries of a document that has said so much, and the header of the lines that follow. -/
def runStatement (state : List String × List (String × Draft)) :
    Statement → Option (List String × List (String × Draft))
  | .table path key => (Draft.openTable path key state.2).map (path ++ [key], ·)
  | .element path key => (Draft.openElement path key state.2).map (path ++ [key], ·)
  | .assignment path key value => (Draft.assign state.1 path key value state.2).map (state.1, ·)

/-- A text without the mark of its byte order. -/
def withoutMark : List Char → List Char
  | '\ufeff' :: cs => cs
  | cs => cs

/-- The setting of a text, unless it breaks a rule. -/
def read (text : String) : Option Setting := do
  let cs := withoutMark text.toList
  let (_, entries) ← (← statements (cs.length + 1) cs).foldlM runStatement ([], [])
  return .table (Draft.settings entries)

end SenderPolicy.Toml
