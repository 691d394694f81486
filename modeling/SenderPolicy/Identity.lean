import SenderPolicy.Address.Printer
import SenderPolicy.Address.Reader
import SenderPolicy.Error

/-!
# Identities

A check is about one connection: the client's address, the sender of the envelope, and the name
that the client gave itself, which stands in for an empty sender.

## Main definitions

* `Identity`: the identities of a connection
* `Identity.read`: the identities of the texts that a connection shows
-/

namespace SenderPolicy

open Text

/-- The identities of a connection. -/
structure Identity where
  /-- The client's address; an IPv4-mapped one is kept as the IPv4 address it stands for. -/
  client : Address
  /-- The sender as the envelope gives it, without white space around it. -/
  envelopeSender : String
  /-- The sender's local part. -/
  localPart : String
  /-- The domain that answers for the sender. -/
  senderDomain : String
  /-- The name that the client gives itself, without dots at its end. -/
  helo : String
  /-- The seconds from the epoch to the check. -/
  timestamp : Int
deriving DecidableEq, Repr

namespace Identity

/-- The local part of a sender that has none. -/
def defaultLocalPart : String := "postmaster"

/-- The local part and the domain of a sender. Without a local part the sender is a domain; an
empty sender stands for the name that the client gives itself. -/
def cutSender (sender helo : String) : String × String :=
  match splitLast? '@' sender with
  | some parts => parts
  | none => ("", if sender = "" then helo else sender)

/-- The identities of the texts that a connection shows. -/
def read (address sender helo : String) (timestamp : Int) : Except Error Identity :=
  match Address.read (trim address) with
  | none => .error (.malformedClient address)
  | some client =>
    -- the name in place of an empty sender is the trimmed one
    let helo := trimDots (trim helo)
    let sender := trim sender
    let (localPart, domain) := cutSender sender helo
    let domain := trimDots domain
    if domain = "" then .error .noSenderDomain
    else .ok {
      client := client.normal
      envelopeSender := sender
      localPart := if localPart = "" then defaultLocalPart else localPart
      senderDomain := domain
      helo := helo
      timestamp := timestamp }

/-- The sender, with a local part in any case. -/
def sender (identity : Identity) : String :=
  identity.localPart ++ "@" ++ identity.senderDomain

end Identity

end SenderPolicy
