import SenderPolicy.Identity
import SenderPolicy.Text.Quoted

/-!
# Outcomes

A check reports its result, the text of a trace header that records it, and the explanation of a
failure.

## Main definitions

* `HeaderFields`: the identities that a header quotes
* `Outcome`: what a check reports
* `Outcome.header`: the header line
* `Outcome.lines`, `Outcome.json`: an outcome for a reader, and for a program
-/

namespace SenderPolicy

/-- The identities that a header quotes. -/
structure HeaderFields where
  address : String
  sender : String
  helo : String
  domain : String
deriving DecidableEq, Repr

/-- The identities of a connection as a header quotes them. -/
def Identity.headerFields (identity : Identity) : HeaderFields where
  address := identity.client.write
  sender := identity.envelopeSender
  helo := identity.helo
  domain := identity.senderDomain

/-- The texts of a connection without identities as a header quotes them: the domain is what
follows the last at sign of the sender, else the name that the client gives itself. -/
def HeaderFields.ofTexts (address sender helo : String) : HeaderFields where
  address := address
  sender := sender
  helo := helo
  domain := ((Text.splitLast? '@' sender).map Prod.snd).getD helo

/-- What a result means for the client, in words. -/
def HeaderFields.comment (fields : HeaderFields) : Result → String
  | .pass =>
    "domain of " ++ fields.domain ++ " designates " ++ fields.address ++ " as permitted sender"
  | .fail =>
    "domain of " ++ fields.domain ++ " does not designate " ++ fields.address ++
      " as permitted sender"
  | .softFail =>
    "transitioning domain of " ++ fields.domain ++ " does not designate " ++ fields.address ++
      " as permitted sender"
  | .neutral | .none =>
    fields.address ++ " is neither permitted nor denied by domain of " ++ fields.domain
  | .permError => "Error in processing SPF Record"
  | .tempError => "Error in retrieving data from DNS"

/-- The text of the header that records a result. -/
def HeaderFields.text (fields : HeaderFields) (result : Result) : String :=
  result.word ++ " (spfCheck: " ++ fields.comment result ++ ") client-ip=" ++ fields.address ++
    "; envelope-from=" ++ fields.sender ++ "; helo=" ++ fields.helo ++ ";"

/-- What a check reports. -/
structure Outcome where
  result : Result
  headerText : String
  explanation : Option String
deriving DecidableEq, Repr

namespace Outcome

/-- The outcome of a result; only a failure is explained. -/
def ofResult (result : Result) (fields : HeaderFields) (explanation : Option String) : Outcome where
  result := result
  headerText := fields.text result
  explanation := if result = .fail then explanation else none

/-- The name of the header that records a result. -/
def headerName : String := "Received-SPF"

/-- The header line. -/
def header (outcome : Outcome) : String :=
  headerName ++ ": " ++ outcome.headerText

/-- The lines that report an outcome to a reader. -/
def lines (outcome : Outcome) : List String :=
  [outcome.result.word, outcome.header] ++ outcome.explanation.toList

/-- The outcome as a JSON object, a member a line. -/
def json (outcome : Outcome) : String :=
  let members := [
    ("result", Text.quote outcome.result.word),
    ("header_text", Text.quote outcome.headerText),
    ("explanation", (outcome.explanation.map Text.quote).getD "null")]
  "\x7b\n" ++ Text.join ",\n" (members.map fun (name, value) =>
    "  " ++ Text.quote name ++ ": " ++ value) ++ "\n\x7d"

end Outcome

end SenderPolicy
