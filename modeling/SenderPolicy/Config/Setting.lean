import SenderPolicy.Config

/-!
# Settings as data

A configuration is written as a tree of settings. A section takes its settings by name, and
ignores names it does not know; it may also be written as a list of its settings in order. A
setting of the wrong kind refuses the configuration. A tree that was written by hand is read more
freely than one that a program hands over.

## Main definitions

* `Setting`: a tree of settings
* `Setting.Source`: where a tree comes from
* `Setting.field`: a setting of a section, by its name or its place
* `Config.ofSetting`: the configuration of a tree
-/

namespace SenderPolicy

/-- A tree of settings. -/
inductive Setting where
  | text (value : String)
  | integer (value : Int)
  | flag (value : Bool)
  | list (values : List Setting)
  | table (entries : List (String × Setting))
  /-- The mark that there is no value. -/
  | nothing
  /-- A value of another kind, which no setting takes. -/
  | other

namespace Setting

/-- Where a tree comes from. -/
inductive Source where
  /-- A document, written by hand. -/
  | document
  /-- The data of a program. -/
  | data
deriving DecidableEq, Repr

/-- What stands for no content behind a name: an empty section in a document, the mark that there
is no value in data. -/
def Source.isVoid : Source → Setting → Bool
  | .document, table [] => true
  | .document, list [] => true
  | .data, nothing => true
  | _, _ => false

/-- A list of values can be read as a section of so many settings. In a document, the values beyond
the last setting are ignored. -/
def Source.admits (source : Source) (values places : Nat) : Bool :=
  source = .document || values ≤ places

/-- A text. -/
def text? : Setting → Option String
  | text value => some value
  | _ => none

/-- A number that counts something and fits into a word of 64 bits. -/
def count? : Setting → Option Nat
  | integer value => if 0 ≤ value ∧ value < UInt64.size then some value.toNat else none
  | _ => none

/-- A truth value. -/
def flag? : Setting → Option Bool
  | flag value => some value
  | _ => none

/-- A list of texts. -/
def texts? : Setting → Option (List String)
  | list values => values.mapM text?
  | _ => none

/-- Texts by name with one more, in ascending order of the names; a name that stands twice has the
later text. -/
def insertSorted (name value : String) : List (String × String) → List (String × String)
  | [] => [(name, value)]
  | (n, v) :: rest =>
    if name < n then (name, value) :: (n, v) :: rest
    else if name = n then (name, value) :: rest
    else (n, v) :: insertSorted name value rest

/-- Texts by name, in ascending order of the names. -/
def textsByName? : Setting → Option (List (String × String))
  | table entries => do
    let texts ← entries.mapM fun (name, value) => value.text?.map (name, ·)
    return texts.foldl (fun sorted (name, value) => insertSorted name value sorted) []
  | _ => none

/-- An executor, named by its word, behind which no content may stand. -/
def kind? (source : Source) : Setting → Option Executor.Kind
  | text value => Executor.Kind.ofWord? value
  | table [(name, value)] => if source.isVoid value then Executor.Kind.ofWord? name else none
  | _ => none

/-- A section of so many settings, unless the tree is none or holds too much. -/
def section? (source : Source) (places : Nat) : Setting → Option Setting
  | table entries => some (table entries)
  | list values => if source.admits values.length places then some (list values) else none
  | _ => none

/-- A setting of a section, by its name or its place; the standard value if it is left out. -/
def field {α : Type} (whole : Setting) (name : String) (place : Nat) (read : Setting → Option α)
    (standard : α) : Option α :=
  match whole with
  | table entries => ((entries.lookup name).map read).getD (some standard)
  | list values => (values[place]?.map read).getD (some standard)
  | _ => none

end Setting

namespace Config

/-- How lookups are made. -/
def dnsOfSetting (source : Setting.Source) (s : Setting) : Option DnsConfig := do
  let s ← s.section? source 4
  return {
    timeout := ← s.field "timeout_ms" 0 Setting.count? standardDns.timeout
    recordLimit := ← s.field "record_limit" 1 Setting.count? standardDns.recordLimit
    localNames := ← s.field "local_domain_names" 2 Setting.texts? standardDns.localNames
    nameservers := ← s.field "nameservers" 3 Setting.texts? standardDns.nameservers }

/-- The receiver's policy. -/
def policyOfSetting (source : Setting.Source) (s : Setting) : Option PolicyConfig := do
  let s ← s.section? source 8
  return {
    defaultExplanation :=
      ← s.field "default_explanation" 0 Setting.text? standardPolicy.defaultExplanation
    useBestGuess := ← s.field "use_best_guess" 1 Setting.flag? standardPolicy.useBestGuess
    bestGuess := ← s.field "best_guess_record" 2 Setting.text? standardPolicy.bestGuess
    useTrustedForwarder :=
      ← s.field "use_trusted_forwarder" 3 Setting.flag? standardPolicy.useTrustedForwarder
    trustedForwarder :=
      ← s.field "trusted_forwarder" 4 Setting.text? standardPolicy.trustedForwarder
    isStrict := ← s.field "strict_records" 5 Setting.flag? standardPolicy.isStrict
    overrides := ← s.field "overrides" 6 Setting.textsByName? standardPolicy.overrides
    fallbacks := ← s.field "fallbacks" 7 Setting.textsByName? standardPolicy.fallbacks }

/-- The executor and its size. -/
def executorOfSetting (source : Setting.Source) (s : Setting) : Option ExecutorConfig := do
  let s ← s.section? source 3
  return {
    kind := ← s.field "kind" 0 (Setting.kind? source) standardExecutor.kind
    workers := ← s.field "workers" 1 Setting.count? standardExecutor.workers
    permits := ← s.field "max_outstanding" 2 Setting.count? standardExecutor.permits }

/-- What is logged, and how. -/
def loggingOfSetting (source : Setting.Source) (s : Setting) : Option LoggingConfig := do
  let s ← s.section? source 2
  return {
    level := ← s.field "level" 0 Setting.text? standardLogging.level
    format := ← s.field "format" 1 Setting.text? standardLogging.format }

/-- The configuration of a tree. -/
def ofSetting (source : Setting.Source) (s : Setting) : Option Config := do
  let s ← s.section? source 4
  return {
    dns := ← s.field "dns" 0 (dnsOfSetting source) standardDns
    policy := ← s.field "policy" 1 (policyOfSetting source) standardPolicy
    executor := ← s.field "executor" 2 (executorOfSetting source) standardExecutor
    logging := ← s.field "logging" 3 (loggingOfSetting source) standardLogging }

end Config

end SenderPolicy
