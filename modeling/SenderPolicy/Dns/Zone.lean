import SenderPolicy.Dns
import SenderPolicy.Domain

/-!
# Zones in memory

A zone answers lookups from a list of records. Names are compared without the dots at their end
and without regard to the case of ASCII letters. Lookups can be set to time out, to fail, or to
take their time.

## Main definitions

* `Zone`: records, and the lookups that go wrong
* `Zone.answer`: the zone's answer
* `Zone.within`: the zone's answers as they reach a check that waits for a limited time
-/

namespace SenderPolicy.Dns

/-- Records, and the lookups that go wrong. -/
structure Zone where
  records : List (String × RecordType × String)
  /-- The lookups that time out. -/
  timeouts : List (String × RecordType)
  /-- The lookups that fail, under the very name that is asked for. -/
  failures : List (String × RecordType)
  /-- The time that every answer takes, in milliseconds. -/
  delay : Nat

namespace Zone

/-- The name is asked for by the request. -/
def matchesName (request : Request) (name : String) (type : RecordType) : Bool :=
  type == request.type && Domain.folded name == Domain.folded request.host

/-- The zone's answer. -/
def answer (zone : Zone) : Service := fun request =>
  if zone.timeouts.any fun (name, type) => matchesName request name type then
    .error (.timeout request.text)
  else if zone.failures.contains (request.host, request.type) then
    .error (.failure request.text)
  else
    .ok (zone.records.filterMap fun (name, type, value) =>
      if matchesName request name type then some value else none)

/-- The zone's answers as they reach a check that waits for a limited time: one that takes longer
is a timeout. -/
def within (zone : Zone) (limit : Nat) : Service := fun request =>
  if limit < zone.delay then .error (.timeout request.text) else zone.answer request

end Zone

end SenderPolicy.Dns
