/-!
# Lookups

The engine never reaches the network. It says which records of which name it needs, and is
handed an answer: the record texts in order, or the reason why there are none to be had. A name
that publishes nothing has the empty answer, which is no failure.

## Main definitions

* `RecordType`, `Request`: what is asked for
* `LookupError`, `Answer`: what comes back
* `Service`: a source of answers that depends on nothing but the request
-/

namespace SenderPolicy.Dns

/-- The types of record that policies refer to. -/
inductive RecordType where
  | a
  | aaaa
  | mx
  | ptr
  | txt
  /-- The type that was set aside for policies before they moved to `TXT`. -/
  | spf
deriving DecidableEq, Repr

namespace RecordType

/-- The type's name. -/
def name : RecordType → String
  | a => "A"
  | aaaa => "AAAA"
  | mx => "MX"
  | ptr => "PTR"
  | txt => "TXT"
  | spf => "SPF"

/-- The type of a name. -/
def ofName? : String → Option RecordType
  | "A" => some a
  | "AAAA" => some aaaa
  | "MX" => some mx
  | "PTR" => some ptr
  | "TXT" => some txt
  | "SPF" => some spf
  | _ => none

theorem ofName?_name (t : RecordType) : ofName? t.name = some t := by
  cases t <;> rfl

end RecordType

/-- The records of one type that a name publishes. -/
structure Request where
  host : String
  type : RecordType
deriving DecidableEq, Repr

/-- A request is shown as its type and its name. -/
def Request.text (r : Request) : String :=
  r.type.name ++ " " ++ r.host

/-- Why a lookup has no answer, with a text that names the lookup. -/
inductive LookupError where
  | timeout (lookup : String)
  | failure (lookup : String)
deriving DecidableEq, Repr

/-- The wording of a failed lookup. -/
def LookupError.message : LookupError → String
  | timeout lookup => "DNS lookup timed out: " ++ lookup
  | failure lookup => "DNS lookup failed: " ++ lookup

/-- What comes back from a lookup: addresses, exchanges by preference, names, or the joined
character-strings of text records. -/
abbrev Answer := Except LookupError (List String)

/-- A source of answers that depends on nothing but the request. -/
abbrev Service := Request → Answer

end SenderPolicy.Dns
