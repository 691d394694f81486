import SenderPolicy.Address.Reader
import SenderPolicy.Error
import SenderPolicy.Record
import SenderPolicy.Record.Grammar

/-!
# Reading a term

A token is a directive or a modifier. The word in front of the first colon or slash names a
mechanism, in any case; the word in front of the first equals sign names a modifier. A token that
has the shape of a term may still hold a value that is refused: an octet above 255, a length
beyond the width of an address, a redirection to what is no domain.

## Main definitions

* `Term`: a directive or a modifier
* `readLength`: the length of a network
* `readMechanism`, `readModifier`: the term that a text has the shape of, or why its value is
  refused; none if it has no such shape
* `Term.read`: the term of a token
-/

namespace SenderPolicy.Record

open Text

/-- A term of a record. -/
inductive Term where
  | directive (d : Directive)
  | modifier (m : Modifier)
deriving DecidableEq, Repr

/-- The length of a network, the full width if it is not written. -/
def readLength (width : Nat) : Option (List Char) → Except Error (Fin (width + 1))
  | none => .ok (Fin.last width)
  | some digits =>
    if h : digitsValue 10 digits ≤ width then .ok ⟨digitsValue 10 digits, Nat.lt_succ_of_le h⟩
    else .error (.excessiveLength (String.ofList digits) width)

/-- The two lengths of a mechanism that looks addresses up. -/
def readLengths (four six : Option (List Char)) : Except Error CidrLengths := do
  return ⟨← readLength 32 four, ← readLength 128 six⟩

/-- The shape of an IPv4 address in a record: four runs of one to three digits between dots. -/
def hasShapeOfV4 (cs : List Char) : Bool :=
  let ps := pieces (· = '.') cs
  ps.length = 4 && ps.all fun p => p ≠ [] && p.length ≤ 3 && p.all Char.isDigit

/-- The shape of an IPv6 address in a record: hexadecimal digits, colons and dots. -/
def hasShapeOfV6 (cs : List Char) : Bool :=
  cs ≠ [] && cs.all fun c => isHexDigit c || c = ':' || c = '.'

/-- An IPv4 network. -/
def readNetwork4 (address : List Char) (digits : Option (List Char)) : Except Error Mechanism :=
  match Address.readV4Chars address with
  | none => .error (.malformedAddress "ip4" (String.ofList address))
  | some word => (readLength 32 digits).map fun length => .network4 ⟨word, length⟩

/-- An IPv6 network. -/
def readNetwork6 (address : List Char) (digits : Option (List Char)) : Except Error Mechanism :=
  match Address.readV6 (String.ofList address) with
  | none => .error (.malformedAddress "ip6" (String.ofList address))
  | some word => (readLength 128 digits).map fun length => .network6 ⟨word, length⟩

/-- The mechanism of an argument that is a domain. -/
def ofDomain (build : String → Mechanism) (argument : List Char) : Option (Except Error Mechanism) :=
  match argument with
  | ':' :: cs => if isDomainSpec cs then some (.ok (build (String.ofList cs))) else none
  | _ => none

/-- The mechanism of an argument that is a domain or nothing, and two lengths. -/
def ofDomainAndLengths (build : Option String → CidrLengths → Mechanism) (argument : List Char) :
    Option (Except Error Mechanism) :=
  match cutLengths argument with
  | ([], four, six) => some ((readLengths four six).map (build none))
  | (':' :: cs, four, six) =>
    if isDomainSpec cs then some ((readLengths four six).map (build (some (String.ofList cs))))
    else none
  | _ => none

/-- The mechanism of an argument that is an address of one family and its length. -/
def ofNetwork (hasShape : List Char → Bool)
    (read : List Char → Option (List Char) → Except Error Mechanism) (argument : List Char) :
    Option (Except Error Mechanism) :=
  match argument with
  | ':' :: cs =>
    let (address, digits) := cutLength ['/'] cs
    if hasShape address then some (read address digits) else none
  | _ => none

/-- The mechanism of a keyword in lower case and an argument with its leading mark. -/
def ofKeyword (keyword : String) (argument : List Char) : Option (Except Error Mechanism) :=
  match keyword with
  | "all" => if argument = [] then some (.ok .all) else none
  | "include" => ofDomain .included argument
  | "a" => ofDomainAndLengths .address argument
  | "mx" => ofDomainAndLengths .exchange argument
  | "ptr" =>
    if argument = [] then some (.ok (.pointer none)) else ofDomain (fun d => .pointer (some d)) argument
  | "ip4" => ofNetwork hasShapeOfV4 readNetwork4 argument
  | "ip6" => ofNetwork hasShapeOfV6 readNetwork6 argument
  | "exists" => ofDomain .existing argument
  | _ => none

/-- The keyword of a mechanism ends in front of a colon or a slash. -/
def endsKeyword (c : Char) : Bool :=
  c = ':' || c = '/'

/-- The mechanism that a text has the shape of, or why its value is refused. -/
def readMechanism (cs : List Char) : Option (Except Error Mechanism) :=
  ofKeyword (String.ofList ((cs.takeWhile fun c => !endsKeyword c).map foldedChar))
    (cs.dropWhile fun c => !endsKeyword c)

/-- The name of a modifier: a letter, then letters, digits, hyphens, underscores and dots. -/
def isModifierName : List Char → Bool
  | [] => false
  | c :: cs => c.isAlpha && cs.all fun c => c.isAlphanum || c = '-' || c = '_' || c = '.'

/-- The modifier of a name and a value, if they have the shape of one. -/
def ofName (name value : List Char) : Option (Except Error Modifier) :=
  let folded := name.map Char.toLower
  let text := String.ofList value
  if folded = "redirect".toList ∧ isDomainSpec value then some (.ok (.redirect text))
  else if folded = "exp".toList ∧ isDomainSpec value then some (.ok (.explanation text))
  else if isModifierName name ∧ isMacroString value then
    if folded = "redirect".toList ∨ folded = "exp".toList then
      some (.error (.malformedModifier (String.ofList name)))
    else some (.ok (.unknown (String.ofList name) text))
  else none

/-- The modifier that a text has the shape of, or why its value is refused. -/
def readModifier (cs : List Char) : Option (Except Error Modifier) :=
  match cs.dropWhile (· ≠ '=') with
  | [] => none
  | _ :: value => ofName (cs.takeWhile (· ≠ '=')) value

/-- The qualifier in front of a directive, and the mechanism's text. -/
def cutQualifier : List Char → Qualifier × List Char
  | [] => (.implied, [])
  | c :: cs =>
    match Qualifier.ofSymbol? c with
    | some q => (q, cs)
    | none => (.implied, c :: cs)

/-- The term of a token. -/
def Term.read (token : List Char) : Except Error Term :=
  let (qualifier, text) := cutQualifier token
  -- no token has both shapes: a mechanism's keyword is followed by no equals sign, and a modifier's
  -- name holds neither colon nor slash
  match readMechanism text, readModifier token with
  | some answer, _ => answer.map fun m => .directive ⟨qualifier, m⟩
  | none, some answer => answer.map .modifier
  | none, none => .error (.unknownTerm (String.ofList token))

end SenderPolicy.Record
