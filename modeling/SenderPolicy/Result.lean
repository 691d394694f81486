/-!
# Results and qualifiers

A check ends in one of seven results. Four of them are what a record's directives say about the
clients they match, each written as a qualifier in front of the directive; the other three say
that there was no policy, that it could not be read, or that it could not be fetched.

## Main definitions

* `Result`: what a check ends in, with the word and the exit code that report it
* `Qualifier`: what a directive says about the clients it matches
-/

namespace SenderPolicy

/-- What a check ends in. -/
inductive Result where
  | pass
  | fail
  | softFail
  | neutral
  | none
  | tempError
  | permError
deriving DecidableEq, Repr

namespace Result

/-- The word that reports a result. -/
def word : Result → String
  | pass => "pass"
  | fail => "fail"
  | softFail => "softfail"
  | neutral => "neutral"
  | none => "none"
  | tempError => "temperror"
  | permError => "permerror"

/-- The exit code of a process that reports a result. -/
def exitCode : Result → Nat
  | pass => 0
  | fail => 1
  | softFail => 2
  | neutral => 3
  | tempError => 4
  | permError => 5
  | none => 6

end Result

/-- What a directive says about the clients it matches. -/
inductive Qualifier where
  | pass
  | fail
  | softFail
  | neutral
deriving DecidableEq, Repr

namespace Qualifier

/-- The qualifier of a directive that is written without one. -/
def implied : Qualifier := pass

/-- The character in front of a directive. -/
def symbol : Qualifier → Char
  | pass => '+'
  | fail => '-'
  | softFail => '~'
  | neutral => '?'

/-- The qualifier that a character stands for. -/
def ofSymbol? (c : Char) : Option Qualifier :=
  if c = '+' then some pass
  else if c = '-' then some fail
  else if c = '~' then some softFail
  else if c = '?' then some neutral
  else none

theorem ofSymbol?_eq_some_iff {c : Char} {q : Qualifier} : ofSymbol? c = some q ↔ c = q.symbol := by
  constructor
  · intro h
    simp only [ofSymbol?] at h
    split at h
    · cases h; assumption
    · split at h
      · cases h; assumption
      · split at h
        · cases h; assumption
        · split at h
          · cases h; assumption
          · cases h
  · rintro rfl
    cases q <;> decide

/-- The result of a check that a directive of this qualifier decides. -/
def result : Qualifier → Result
  | pass => .pass
  | fail => .fail
  | softFail => .softFail
  | neutral => .neutral

end Qualifier

end SenderPolicy
