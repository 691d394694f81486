import SenderPolicy.Proofs.Record.Grammar
import SenderPolicy.Record.Parser

/-!
# The grammar of terms

A token is a mechanism behind a qualifier or without one, or a modifier. The grammar says into which
parts a token is cut; what the parts denote is another matter, because a length may exceed the width
of an address and a run of digits may be no octet.

## Main definitions

* `MechanismParts`, `MechanismParts.Written`: the parts of a mechanism, and how it is written
* `ModifierParts`, `ModifierParts.Written`: the parts of a modifier, and how it is written
* `MechanismParts.Denotes`, `ModifierParts.Denotes`: what the parts denote
* `Term.Written`: the tokens that denote a term
-/

namespace SenderPolicy.Record

open Text Macro

/-! ## Mechanisms -/

/-- The parts that the text of a mechanism is cut into. -/
inductive MechanismParts where
  | all
  | included (domain : List Char)
  | address (domain four six : Option (List Char))
  | exchange (domain four six : Option (List Char))
  | pointer (domain : Option (List Char))
  | network4 (address : List Char) (digits : Option (List Char))
  | network6 (address : List Char) (digits : Option (List Char))
  | existing (domain : List Char)

/-- The characters are those of the word, in any case. -/
def Keyword (word : String) (cs : List Char) : Prop :=
  cs.map foldedChar = word.toList

/-- Nothing, or a colon and a domain. -/
inductive OptionalDomain : List Char → Option (List Char) → Prop
  | absent : OptionalDomain [] none
  | present {domain : List Char} (hd : DomainSpec domain) :
      OptionalDomain (':' :: domain) (some domain)

/-- Nothing, or a mark and digits. -/
inductive OptionalLength (mark : List Char) : List Char → Option (List Char) → Prop
  | absent : OptionalLength mark [] none
  | present {digits : List Char} (hn : digits ≠ []) (hd : ∀ c ∈ digits, c.isDigit = true) :
      OptionalLength mark (mark ++ digits) (some digits)

/-- Four runs of one to three digits between dots. -/
def ShapeOfV4 (cs : List Char) : Prop :=
  ∃ a b c d : List Char, cs = joined ['.'] [a, b, c, d] ∧
    ∀ run ∈ [a, b, c, d], run ≠ [] ∧ run.length ≤ 3 ∧ ∀ x ∈ run, x.isDigit = true

/-- Hexadecimal digits, colons and dots. -/
def ShapeOfV6 (cs : List Char) : Prop :=
  cs ≠ [] ∧ ∀ c ∈ cs, isHexDigit c = true ∨ c = ':' ∨ c = '.'

/-- How a mechanism is written. -/
inductive MechanismParts.Written : List Char → MechanismParts → Prop
  | all {k : List Char} (hk : Keyword "all" k) : Written k .all
  | included {k domain : List Char} (hk : Keyword "include" k) (hd : DomainSpec domain) :
      Written (k ++ ':' :: domain) (.included domain)
  | address {k target four six : List Char} {domain digits4 digits6 : Option (List Char)}
      (hk : Keyword "a" k) (hd : OptionalDomain target domain)
      (h4 : OptionalLength ['/'] four digits4) (h6 : OptionalLength ['/', '/'] six digits6) :
      Written (k ++ (target ++ four ++ six)) (.address domain digits4 digits6)
  | exchange {k target four six : List Char} {domain digits4 digits6 : Option (List Char)}
      (hk : Keyword "mx" k) (hd : OptionalDomain target domain)
      (h4 : OptionalLength ['/'] four digits4) (h6 : OptionalLength ['/', '/'] six digits6) :
      Written (k ++ (target ++ four ++ six)) (.exchange domain digits4 digits6)
  | pointer {k target : List Char} {domain : Option (List Char)} (hk : Keyword "ptr" k)
      (hd : OptionalDomain target domain) : Written (k ++ target) (.pointer domain)
  | network4 {k address length : List Char} {digits : Option (List Char)} (hk : Keyword "ip4" k)
      (ha : ShapeOfV4 address) (hl : OptionalLength ['/'] length digits) :
      Written (k ++ ':' :: (address ++ length)) (.network4 address digits)
  | network6 {k address length : List Char} {digits : Option (List Char)} (hk : Keyword "ip6" k)
      (ha : ShapeOfV6 address) (hl : OptionalLength ['/'] length digits) :
      Written (k ++ ':' :: (address ++ length)) (.network6 address digits)
  | existing {k domain : List Char} (hk : Keyword "exists" k) (hd : DomainSpec domain) :
      Written (k ++ ':' :: domain) (.existing domain)

/-- The length that digits denote, if it does not exceed the width; without digits, the width. -/
inductive LengthDenotes (width : Nat) : Option (List Char) → Fin (width + 1) → Prop
  | absent : LengthDenotes width none (Fin.last width)
  | present {digits : List Char} {length : Fin (width + 1)}
      (h : digitsValue 10 digits = length.val) : LengthDenotes width (some digits) length

/-- What the parts of a mechanism denote. -/
inductive MechanismParts.Denotes : MechanismParts → Mechanism → Prop
  | all : Denotes .all .all
  | included {domain : List Char} :
      Denotes (.included domain) (.included (String.ofList domain))
  | address {domain digits4 digits6 : Option (List Char)} {lengths : CidrLengths}
      (h4 : LengthDenotes 32 digits4 lengths.ip4) (h6 : LengthDenotes 128 digits6 lengths.ip6) :
      Denotes (.address domain digits4 digits6) (.address (domain.map String.ofList) lengths)
  | exchange {domain digits4 digits6 : Option (List Char)} {lengths : CidrLengths}
      (h4 : LengthDenotes 32 digits4 lengths.ip4) (h6 : LengthDenotes 128 digits6 lengths.ip6) :
      Denotes (.exchange domain digits4 digits6) (.exchange (domain.map String.ofList) lengths)
  | pointer {domain : Option (List Char)} :
      Denotes (.pointer domain) (.pointer (domain.map String.ofList))
  | network4 {address : List Char} {digits : Option (List Char)} {word : BitVec 32}
      {length : Fin 33} (ha : Address.readV4 (String.ofList address) = some word)
      (hl : LengthDenotes 32 digits length) :
      Denotes (.network4 address digits) (.network4 ⟨word, length⟩)
  | network6 {address : List Char} {digits : Option (List Char)} {word : BitVec 128}
      {length : Fin 129} (ha : Address.readV6 (String.ofList address) = some word)
      (hl : LengthDenotes 128 digits length) :
      Denotes (.network6 address digits) (.network6 ⟨word, length⟩)
  | existing {domain : List Char} :
      Denotes (.existing domain) (.existing (String.ofList domain))

/-! ## Modifiers -/

/-- The parts that the text of a modifier is cut into. -/
inductive ModifierParts where
  | redirect (domain : List Char)
  | explanation (domain : List Char)
  | unknown (name value : List Char)

/-- How a modifier is written. -/
inductive ModifierParts.Written : List Char → ModifierParts → Prop
  | redirect {k domain : List Char} (hk : Keyword "redirect" k) (hd : DomainSpec domain) :
      Written (k ++ '=' :: domain) (.redirect domain)
  | explanation {k domain : List Char} (hk : Keyword "exp" k) (hd : DomainSpec domain) :
      Written (k ++ '=' :: domain) (.explanation domain)
  | unknown {name value : List Char} (hn : isModifierName name = true) (hv : MacroString value) :
      Written (name ++ '=' :: value) (.unknown name value)

/-- The name is one of a modifier with a meaning, in any case. -/
def IsReserved (name : List Char) : Prop :=
  name.map Char.toLower = "redirect".toList ∨ name.map Char.toLower = "exp".toList

/-- What the parts of a modifier denote; without its meaning, a reserved name denotes nothing. -/
inductive ModifierParts.Denotes : ModifierParts → Modifier → Prop
  | redirect {domain : List Char} :
      Denotes (.redirect domain) (.redirect (String.ofList domain))
  | explanation {domain : List Char} :
      Denotes (.explanation domain) (.explanation (String.ofList domain))
  | unknown {name value : List Char} (hn : ¬ IsReserved name) :
      Denotes (.unknown name value) (.unknown (String.ofList name) (String.ofList value))

/-! ## Terms -/

/-- The tokens that denote a term: a mechanism without a qualifier or behind its symbol, or a
modifier. -/
inductive Term.Written : List Char → Term → Prop
  | implied {text : List Char} {parts : MechanismParts} {m : Mechanism} (hw : parts.Written text)
      (hd : parts.Denotes m) : Written text (.directive ⟨.implied, m⟩)
  | qualified {text : List Char} {parts : MechanismParts} {m : Mechanism} (q : Qualifier)
      (hw : parts.Written text) (hd : parts.Denotes m) :
      Written (q.symbol :: text) (.directive ⟨q, m⟩)
  | modifier {text : List Char} {parts : ModifierParts} {m : Modifier} (hw : parts.Written text)
      (hd : parts.Denotes m) : Written text (.modifier m)

end SenderPolicy.Record
