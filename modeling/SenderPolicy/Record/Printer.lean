import SenderPolicy.Address.Printer
import SenderPolicy.Record.Parser

/-!
# Writing a record

A record is written with its directives in front of its modifiers. The implied qualifier, full
lengths and the case of keywords are not kept.

## Main definitions

* `Mechanism.write`, `Directive.write`, `Modifier.write`: the text of a term
* `Record.write`: the text of a record
-/

namespace SenderPolicy

/-- A length behind its mark, if it is not full. -/
def writeLength (mark : String) (length full : Nat) : String :=
  if length = full then "" else mark ++ toString length

/-- The two lengths of a mechanism that looks addresses up. -/
def CidrLengths.write (lengths : CidrLengths) : String :=
  writeLength "/" lengths.ip4.val 32 ++ writeLength "//" lengths.ip6.val 128

/-- A domain behind a colon, if there is one. -/
def writeDomain : Option String → String
  | none => ""
  | some domain => ":" ++ domain

/-- What stands behind the keyword of a mechanism. -/
def Mechanism.writeArgument : Mechanism → String
  | all => ""
  | included domain => writeDomain (some domain)
  | address domain lengths => writeDomain domain ++ lengths.write
  | exchange domain lengths => writeDomain domain ++ lengths.write
  | pointer domain => writeDomain domain
  | network4 net => ":" ++ Address.writeV4 net.address ++ writeLength "/" net.length.val 32
  | network6 net => ":" ++ Address.writeV6 net.address ++ writeLength "/" net.length.val 128
  | existing domain => writeDomain (some domain)

/-- The text of a mechanism. -/
def Mechanism.write (m : Mechanism) : String :=
  m.keyword ++ m.writeArgument

/-- The text of a directive. -/
def Directive.write (d : Directive) : String :=
  (if d.qualifier = .implied then "" else d.qualifier.symbol.toString) ++ d.mechanism.write

/-- The text of a modifier. -/
def Modifier.write (m : Modifier) : String :=
  m.name ++ "=" ++ m.value

/-- The text of a record. -/
def Record.write (record : Record) : String :=
  Text.join " " (version :: record.directives.map Directive.write ++
    record.modifiers.map Modifier.write)

end SenderPolicy
