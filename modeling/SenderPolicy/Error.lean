import SenderPolicy.Dns
import SenderPolicy.Result

/-!
# Causes of failed evaluations

An evaluation that cannot go on names its cause. Every cause belongs to one of the three results
that stand for failures, and has one wording.

## Main definitions

* `Error`: the causes
* `Error.result`: the result of a check that ends with the cause
* `Error.message`: the wording, led by the word of that result
-/

namespace SenderPolicy

/-- Why a policy, a template or an identity cannot be evaluated. -/
inductive Error where
  /-- The text does not carry the version token. -/
  | notARecord (text : String)
  /-- Neither identity names a domain. -/
  | noSenderDomain
  /-- The domain has an empty or an over-long label. -/
  | malformedDomain (domain : String)
  /-- Nothing is published or configured for the domain. -/
  | nothingPublished (domain : String)
  /-- There is no record to evaluate. -/
  | nothingToEvaluate (domain : String)
  /-- The token is no term of a record. -/
  | unknownTerm (token : String)
  /-- A modifier that a policy gives meaning to has a value outside its grammar. -/
  | malformedModifier (name : String)
  /-- A modifier that may stand once stands again. -/
  | repeatedModifier (name : String)
  /-- The argument of the named mechanism is no address. -/
  | malformedAddress (mechanism : String) (text : String)
  /-- The length of a network exceeds the width of its address. -/
  | excessiveLength (digits : String) (maximum : Nat)
  /-- A percent sign starts no element of a template. -/
  | malformedTemplate (template : String)
  /-- What stands between braces is no expansion. -/
  | malformedCell (cell : String)
  /-- The letter has no value where the template stands. -/
  | unknownLetter (letter : Char)
  /-- An expansion keeps none of the parts of its value. -/
  | keepsNoPart
  /-- The client's address is no address. -/
  | malformedClient (text : String)
  /-- More terms ask for lookups than a check allows. -/
  | tooManyTerms (maximum : Nat)
  /-- A domain publishes two records of one type. -/
  | severalRecords
  /-- Only the type set aside for policies holds the record. -/
  | onlySpfType
  /-- The two types hold different records. -/
  | recordsDiffer
  /-- An included domain has no policy. -/
  | includedWithoutPolicy (domain : String) (cause : Error)
  /-- The target of a redirection has no policy. -/
  | redirectedWithoutPolicy (domain : String) (cause : Error)
  /-- A lookup that the policy depends on failed. -/
  | lookup (cause : Dns.LookupError)
deriving DecidableEq, Repr

namespace Error

/-- The result of a check that ends with the cause. -/
def result : Error → Result
  | notARecord _ | noSenderDomain | malformedDomain _ | nothingPublished _
  | nothingToEvaluate _ => .none
  | lookup _ => .tempError
  | _ => .permError

/-- The wording of a cause, without its result. -/
def reason : Error → String
  | notARecord text => "Not an SPF record: " ++ text
  | noSenderDomain => "No sender domain to check"
  | malformedDomain domain => "Invalid domain name: " ++ domain
  | nothingPublished domain => "No SPF record found for " ++ domain
  | nothingToEvaluate domain => "No SPF record for " ++ domain
  | unknownTerm token => "Unknown term: " ++ token
  | malformedModifier name => "Invalid value for " ++ name ++ " modifier"
  | repeatedModifier name => "Duplicate " ++ name ++ " modifier"
  | malformedAddress mechanism text => "Invalid " ++ mechanism ++ " address: " ++ text
  | excessiveLength digits maximum =>
    "Invalid CIDR length /" ++ digits ++ " (maximum " ++ toString maximum ++ ")"
  | malformedTemplate template => "Invalid macro string: " ++ template
  | malformedCell cell => "Invalid macro: %\x7b" ++ cell ++ "\x7d"
  | unknownLetter letter => "Unknown macro letter '" ++ letter.toString ++ "' in this context"
  | keepsNoPart => "Macro digit transformer must be at least 1"
  | malformedClient text => "Invalid client IP address: " ++ text
  | tooManyTerms maximum =>
    "Maximum of " ++ toString maximum ++ " DNS-querying terms exceeded"
  | severalRecords => "More than one SPF record published"
  | onlySpfType => "Record published only as SPF RR type"
  | recordsDiffer => "SPF and TXT records differ"
  | includedWithoutPolicy domain cause =>
    "Included domain " ++ domain ++ " has no policy: " ++ cause.reason
  | redirectedWithoutPolicy domain cause =>
    "Redirect target " ++ domain ++ " has no policy: " ++ cause.reason
  | lookup cause => cause.message

/-- The wording of a cause, led by the word of its result. -/
def message (e : Error) : String :=
  e.result.word ++ ": " ++ e.reason

/-! ## Answers that may be refused -/

section Answers

variable {α β ε : Type} {answer : Except ε α} {b : β} {cause : ε}

theorem map_eq_ok_iff {f : α → β} : answer.map f = .ok b ↔ ∃ a, answer = .ok a ∧ f a = b := by
  cases answer <;> simp [Except.map]

theorem map_eq_error_iff {f : α → β} : answer.map f = .error cause ↔ answer = .error cause := by
  cases answer <;> simp [Except.map]

theorem bind_eq_ok_iff {f : α → Except ε β} :
    answer >>= f = .ok b ↔ ∃ a, answer = .ok a ∧ f a = .ok b := by
  cases answer <;> simp [bind, Except.bind]

theorem bind_eq_error_iff {f : α → Except ε β} :
    answer >>= f = .error cause ↔
      answer = .error cause ∨ ∃ a, answer = .ok a ∧ f a = .error cause := by
  cases answer <;> simp [bind, Except.bind]

end Answers

end Error

end SenderPolicy
