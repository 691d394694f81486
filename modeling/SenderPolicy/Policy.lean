import SenderPolicy.Policy.Table

/-!
# Policies of a receiver

What a receiver sets for all checks: which records replace or back up published ones, what is
assumed of domains that publish nothing, and how failures are explained. These settings are one
list of stages that every evaluated domain goes through before its record is evaluated.

## Main definitions

* `Policy`: the settings of a receiver
* `Stage`: a stage on the way to the record of a domain
* `Policy.stages`: the stages of a policy, in order
-/

namespace SenderPolicy

/-- The settings of a receiver. -/
structure Policy where
  /-- The template that explains a failure for which the record gives no explanation. -/
  defaultExplanation : Option String
  /-- The record that is assumed of domains that publish none. -/
  bestGuess : Option String
  /-- The domain whose clients every record permits. -/
  trustedForwarder : Option String
  /-- The records of both types have to agree. -/
  isStrict : Bool
  /-- The records that replace published ones. -/
  overrides : Option Policy.Table
  /-- The records of hosts that publish none. -/
  fallbacks : Option Policy.Table

namespace Policy

/-- The template that explains failures unless a receiver sets another. -/
def standardExplanation : String :=
  "http://www.openspf.org/why.html?sender=%\x7bS\x7d&ip=%\x7bI\x7d"

/-- The record that is assumed of domains that publish none, unless a receiver sets another. -/
def standardGuess : String := "v=spf1 a/24 mx/24 ptr ?all"

/-- The forwarder that is trusted unless a receiver sets another. -/
def standardForwarder : String := "spf.trusted-forwarder.org"

/-- The policy of a receiver that sets nothing. -/
def standard : Policy where
  defaultExplanation := some standardExplanation
  bestGuess := none
  trustedForwarder := none
  isStrict := false
  overrides := none
  fallbacks := none

/-- A stage on the way to the record of a domain. -/
inductive Stage where
  /-- Use the record that the table holds for the domain. -/
  | overrides (table : Table)
  /-- Refuse domains with an empty or an over-long label. -/
  | wellFormed
  /-- Look the published record up. -/
  | published (isStrict : Bool)
  /-- Assume a record of a domain that publishes none. -/
  | bestGuess (text : String)
  /-- Read the record's text. -/
  | parsed
  /-- Use the record that the table holds for a domain without one. -/
  | fallbacks (table : Table)
  /-- Refuse domains without a record. -/
  | required
  /-- Permit the clients of the forwarder before the record turns all others away. -/
  | trustedForwarder (domain : String)
  /-- A record whose directives match nothing is neutral. -/
  | neutralWithoutMatch
  /-- Explain failures by the template. -/
  | explanation (template : String)

/-- The stages of a policy, in order. -/
def stages (policy : Policy) : List Stage :=
  -- the lookup and the reading of its text come before the fallbacks: a record that is published but
  -- cannot be read is not backed up
  (policy.overrides.map .overrides).toList ++
  [.wellFormed, .published policy.isStrict] ++
  (policy.bestGuess.map .bestGuess).toList ++
  [.parsed] ++
  (policy.fallbacks.map .fallbacks).toList ++
  [.required] ++
  (policy.trustedForwarder.map .trustedForwarder).toList ++
  [.neutralWithoutMatch] ++
  (policy.defaultExplanation.map .explanation).toList

end Policy

end SenderPolicy
