import SenderPolicy.Address.Printer
import SenderPolicy.Config
import SenderPolicy.Dns.Nameserver
import SenderPolicy.Text.Utf8

/-!
# Resolvers

A resolver turns what servers send back into the answers that checks work with: addresses as
texts, names without the dot at their end, exchanges by preference, and each text record as its
character-strings in a row. The record type that was set aside for policies is never asked for.

## Main definitions

* `Exchange`, `Response`: what comes back from a server
* `Response.answer`: the answer that a response stands for
* `Resolver`: the servers and settings of a receiver
* `Resolver.ofConfig`: a resolver, unless one of its servers cannot be read
* `Resolver.service`: the answers of a resolver

## Main results

* `Exchange.sorted_perm`, `Exchange.pairwise_sorted`: exchanges are neither lost nor doubled, and
  come in order of preference
-/

namespace SenderPolicy.Dns

open Text

/-- An exchange of a domain; the one of least preference comes first. -/
structure Exchange where
  preference : Nat
  name : String
deriving DecidableEq, Repr

namespace Exchange

/-- One exchange is not preferred less than another. -/
def precedes (e f : Exchange) : Bool :=
  e.preference ≤ f.preference

/-- Exchanges by preference; those of equal preference stay in the order they came in. -/
def sorted (exchanges : List Exchange) : List Exchange :=
  exchanges.mergeSort precedes

/-- No exchange is lost or doubled. -/
theorem sorted_perm (exchanges : List Exchange) : (sorted exchanges).Perm exchanges :=
  List.mergeSort_perm exchanges precedes

theorem precedes_trans (e f g : Exchange) (hef : precedes e f = true)
    (hfg : precedes f g = true) : precedes e g = true := by
  simp only [precedes, decide_eq_true_eq] at *
  omega

theorem precedes_total (e f : Exchange) : (precedes e f || precedes f e) = true := by
  simp only [precedes, Bool.or_eq_true, decide_eq_true_eq]
  omega

/-- The exchanges come in order of preference. -/
theorem pairwise_sorted (exchanges : List Exchange) :
    (sorted exchanges).Pairwise fun e f => e.preference ≤ f.preference := by
  have h : (sorted exchanges).Pairwise fun e f => precedes e f = true :=
    List.pairwise_mergeSort precedes_trans precedes_total exchanges
  exact h.imp fun h => by simpa [precedes] using h

end Exchange

/-- What comes back from a server. -/
inductive Response where
  | addresses (values : List Address)
  | exchanges (values : List Exchange)
  | names (values : List String)
  /-- The character-strings of each record, as octets. -/
  | texts (values : List (List (List UInt8)))
  /-- There are no records, for whatever reason the server gives. -/
  | nothing
  /-- No server answered in time. -/
  | silence
  /-- The lookup could not be made. -/
  | failure (cause : String)

/-- The text of a record: its character-strings, each read by itself. -/
def textOf (strings : List (List UInt8)) : String :=
  String.ofList (strings.flatMap fun octets => (decodeLossy octets).toList)

/-- The answer that a response stands for. -/
def Response.answer (request : Request) : Response → Answer
  | addresses values => .ok (values.map Address.write)
  | exchanges values => .ok ((Exchange.sorted values).map fun e => trimDots e.name)
  | names values => .ok (values.map trimDots)
  | texts values => .ok (values.map textOf)
  | nothing => .ok []
  | silence => .error (.timeout request.text)
  | failure cause => .error (.failure (request.text ++ ": " ++ cause))

/-- The servers and settings of a receiver. -/
structure Resolver where
  /-- The servers that are asked; if there are none, those of the machine. -/
  servers : List Nameserver
  localNames : List String
  recordLimit : Nat
deriving DecidableEq, Repr

namespace Resolver

/-- A server, unless its text cannot be read. -/
def serverOf (text : String) : Except ConfigError Nameserver :=
  match Nameserver.read text with
  | some server => .ok server
  | none => .error (.malformedNameserver text)

/-- A resolver of the configured servers; the first that cannot be read refuses them all. -/
def ofConfig (config : DnsConfig) : Except ConfigError Resolver := do
  return {
    servers := ← config.nameservers.mapM serverOf
    localNames := config.localNames
    recordLimit := config.recordLimit }

/-- The name that servers are asked for, which ends with one dot. -/
def rooted (host : String) : String :=
  trimDots host ++ "."

/-- The answers of a resolver whose servers respond as given. -/
def service (respond : String → RecordType → Response) : Service := fun request =>
  if request.type = .spf then .ok []
  else (respond (rooted request.host) request.type).answer request

end Resolver

end SenderPolicy.Dns
