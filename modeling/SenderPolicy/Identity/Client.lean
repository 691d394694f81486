import SenderPolicy.Dns
import SenderPolicy.Identity
import SenderPolicy.Record

/-!
# The client of a connection

Lookups answer with addresses as texts. They are compared with the client's address in two ways: as
the same address in whichever spelling, or as an address whose network holds the client.

## Main definitions

* `Identity.addressType`, `Identity.reverseName`: where the client's address can be looked up
* `Identity.isClient`: a text is the client's address
* `Identity.inNetwork`: the client is in the network around the address of a text
-/

namespace SenderPolicy.Identity

/-- The type of address records that can hold the client's address. -/
def addressType (identity : Identity) : Dns.RecordType :=
  match identity.client with
  | .v4 _ => .a
  | .v6 _ => .aaaa

/-- The name whose `PTR` records name the client. -/
def reverseName (identity : Identity) : String :=
  identity.client.reverseName

/-- The text is the client's address, in whichever spelling. -/
def isClient (identity : Identity) (text : String) : Bool :=
  (Address.read text).map Address.normal = some identity.client

/-- The client is in the network around the address that the text holds. -/
def inNetwork (identity : Identity) (text : String) (lengths : CidrLengths) : Bool :=
  match Address.read text, identity.client with
  | some (.v4 word), .v4 client => Network.contains ⟨word, lengths.ip4⟩ client
  | some (.v6 word), .v6 client => Network.contains ⟨word, lengths.ip6⟩ client
  | _, _ => false

end SenderPolicy.Identity
