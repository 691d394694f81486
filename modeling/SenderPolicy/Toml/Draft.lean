import SenderPolicy.Config.Setting

/-!
# Tables under construction

The lines of a document fill one table. A header names the table that the lines below it fill; a
dotted key names a table below that one. A table is written in one place only: a header may open
a table that so far was only named on the way to another one, and a dotted key may add to tables
that dotted keys have made.

## Main definitions

* `Origin`, `Draft`: what is known of a table, and its entries so far
* `Draft.descend`: a change of the table at the end of a path
* `Draft.openTable`, `Draft.openElement`: what a header does
* `Draft.assign`: what a key with a value does
* `Draft.setting`: the finished setting
-/

namespace SenderPolicy.Toml

/-- How a table came to be. -/
inductive Origin where
  /-- By a header of its own. -/
  | opened
  /-- On the way to the table of a header. -/
  | implied
  /-- On the way to the end of a dotted key. -/
  | dotted
deriving DecidableEq, Repr

/-- A value of a document that is still being read. -/
inductive Draft where
  /-- A value that is complete. -/
  | value (setting : Setting)
  /-- A table to which entries can be added. -/
  | table (origin : Origin) (entries : List (String × Draft))
  /-- A list of tables, of which the last one is open. -/
  | tables (closed : List Setting) (entries : List (String × Draft))

namespace Draft

mutual

/-- The finished setting. -/
def setting : Draft → Setting
  | value s => s
  | table _ entries => .table (settings entries)
  | tables closed entries => .list (closed ++ [.table (settings entries)])

/-- The finished entries. -/
def settings : List (String × Draft) → List (String × Setting)
  | [] => []
  | (key, draft) :: entries => (key, draft.setting) :: settings entries

end

/-- Entries with another draft under a key. -/
def put (key : String) (draft : Draft) : List (String × Draft) → List (String × Draft)
  | [] => [(key, draft)]
  | (k, d) :: entries => if k = key then (key, draft) :: entries else (k, d) :: put key draft entries

/-- A change of the table at the end of a path, on which missing tables are made. A path goes
through the last table of a list. Dotted keys do not pass tables with a header of their own. -/
def descend (isDotted : Bool)
    (change : Origin → List (String × Draft) → Option (List (String × Draft))) :
    List String → Origin → List (String × Draft) → Option (List (String × Draft))
  | [], origin, entries => change origin entries
  | key :: path, _, entries =>
    match entries.lookup key with
    | none => do
      let origin : Origin := if isDotted then .dotted else .implied
      return put key (table origin (← descend isDotted change path origin [])) entries
    | some (table origin inner) =>
      if isDotted ∧ origin = .opened then none
      else do return put key (table origin (← descend isDotted change path origin inner)) entries
    | some (tables closed inner) => do
      return put key (tables closed (← descend isDotted change path .opened inner)) entries
    | some (value _) => none

/-- The header of a table. -/
def openTable (path : List String) (key : String) :
    List (String × Draft) → Option (List (String × Draft)) :=
  descend false (fun _ entries =>
    match entries.lookup key with
    | none => some (put key (table .opened []) entries)
    | some (table .implied inner) => some (put key (table .opened inner) entries)
    | some _ => none) path .opened

/-- The header of a further table in a list. -/
def openElement (path : List String) (key : String) :
    List (String × Draft) → Option (List (String × Draft)) :=
  descend false (fun _ entries =>
    match entries.lookup key with
    | none => some (put key (tables [] []) entries)
    | some (tables closed inner) =>
      some (put key (tables (closed ++ [.table (settings inner)]) []) entries)
    | some _ => none) path .opened

/-- A key with a value, below the table of a header: the key is new, and what a dotted key adds
to was made by dotted keys. -/
def assign (header path : List String) (key : String) (setting : Setting) :
    List (String × Draft) → Option (List (String × Draft)) :=
  descend false (descend true (fun origin entries =>
    -- a dotted key ends in a table made by dotted keys, a plain one in the table of the header
    if (origin = .dotted) = (path = []) then none
    else
      match entries.lookup key with
      | none => some (put key (value setting) entries)
      | some _ => none) path) header .opened

end Draft

end SenderPolicy.Toml
