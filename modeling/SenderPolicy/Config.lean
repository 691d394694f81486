import SenderPolicy.Executor

/-!
# Configuration

What an administrator can set: how lookups are made, the receiver's policy, the executor, and what
is logged. A setting that is left out has its standard value.

## Main definitions

* `FileFault`: why a file cannot be read
* `Config`: all settings in four sections
* `Config.validate`: the settings that no check can work with are refused
* `Config.policyOf`: the policy of the settings, unless a local record cannot be read
* `ConfigError`: why a configuration cannot be used
-/

namespace SenderPolicy

/-- Why a file cannot be read. -/
inductive FileFault where
  /-- There is no file of this name. -/
  | missing
  /-- The name stands for a folder. -/
  | folder
  /-- The name leads through a file as if it were a folder. -/
  | notFolder
  /-- The name, or a part of it, is too long. -/
  | nameTooLong
  /-- The file may not be read. -/
  | denied
  /-- The content is no text. -/
  | notText
deriving DecidableEq, Repr

namespace FileFault

/-- The wording of a fault. -/
def message : FileFault → String
  | missing => "No such file or directory (os error 2)"
  | folder => "Is a directory (os error 21)"
  | notFolder => "Not a directory (os error 20)"
  | nameTooLong => "File name too long (os error 36)"
  | denied => "Permission denied (os error 13)"
  | notText => "stream did not contain valid UTF-8"

/-- Nothing is there under the name. -/
def isAbsence : FileFault → Bool
  | missing | notFolder | nameTooLong => true
  | folder | denied | notText => false

end FileFault

/-- Why a configuration cannot be used. -/
inductive ConfigError where
  /-- The file cannot be read. -/
  | unreadable (fault : FileFault)
  /-- The text is no configuration. -/
  | malformed
  /-- No exchange or name would be considered. -/
  | noRecords
  /-- No check would ever be brought to its end. -/
  | noWorkers
  /-- A local record cannot be read. -/
  | malformedRecord (table host : String) (cause : Error)
  /-- A resolver's address cannot be read. -/
  | malformedNameserver (text : String)
deriving DecidableEq, Repr

namespace ConfigError

/-- The code that names the kind of an error. -/
def code : ConfigError → String
  | unreadable _ | malformed => "CONFIG_ERROR"
  | noRecords | noWorkers | malformedRecord _ _ _ => "VALIDATION_ERROR"
  | malformedNameserver _ => "DNS_ERROR"

/-- The wording of an error. -/
def message : ConfigError → String
  | unreadable fault => "Configuration error: Failed to read config file: " ++ fault.message
  | malformed => "Configuration error: Failed to parse config"
  | noRecords => "Validation error: dns.record_limit must be at least 1"
  | noWorkers =>
    "Validation error: executor.workers and executor.max_outstanding must be at least 1"
  | malformedRecord table host cause =>
    "Validation error: Invalid " ++ table ++ " record for " ++ host ++ ": " ++ cause.message
  | malformedNameserver text => "DNS error: Invalid nameserver: " ++ text

end ConfigError

/-- How lookups are made. -/
structure DnsConfig where
  /-- The milliseconds that a lookup may take. -/
  timeout : Nat
  /-- The number of exchanges or names that one mechanism considers. -/
  recordLimit : Nat
  /-- The receiver's own names. -/
  localNames : List String
  /-- The resolvers that are asked. -/
  nameservers : List String
deriving DecidableEq, Repr

/-- The receiver's policy. -/
structure PolicyConfig where
  /-- The template of explanations; an empty one explains nothing. -/
  defaultExplanation : String
  useBestGuess : Bool
  bestGuess : String
  useTrustedForwarder : Bool
  trustedForwarder : String
  isStrict : Bool
  /-- The records that replace published ones, by host in ascending order. -/
  overrides : List (String × String)
  /-- The records of hosts that publish none, by host in ascending order. -/
  fallbacks : List (String × String)
deriving DecidableEq, Repr

/-- The executor and its size. -/
structure ExecutorConfig where
  kind : Executor.Kind
  workers : Nat
  permits : Nat
deriving DecidableEq, Repr

/-- What is logged, and how. -/
structure LoggingConfig where
  level : String
  format : String
deriving DecidableEq, Repr

/-- All settings. -/
structure Config where
  dns : DnsConfig
  policy : PolicyConfig
  executor : ExecutorConfig
  logging : LoggingConfig
deriving DecidableEq, Repr

namespace Config

/-- Lookups as they are made unless set otherwise. -/
def standardDns : DnsConfig where
  timeout := 5000
  recordLimit := 10
  localNames := []
  nameservers := []

/-- The policy unless set otherwise. -/
def standardPolicy : PolicyConfig where
  defaultExplanation := Policy.standardExplanation
  useBestGuess := false
  bestGuess := Policy.standardGuess
  useTrustedForwarder := false
  trustedForwarder := Policy.standardForwarder
  isStrict := false
  overrides := []
  fallbacks := []

/-- The executor unless set otherwise. -/
def standardExecutor : ExecutorConfig where
  kind := .blocking
  workers := 4
  permits := 64

/-- The log unless set otherwise. -/
def standardLogging : LoggingConfig where
  level := "info"
  format := "text"

/-- The configuration of an administrator who sets nothing. -/
def standard : Config where
  dns := standardDns
  policy := standardPolicy
  executor := standardExecutor
  logging := standardLogging

/-- A configuration that checks can work with. -/
def validate (config : Config) : Except ConfigError Config :=
  if config.dns.recordLimit = 0 then .error .noRecords
  else if config.executor.workers = 0 ∨ config.executor.permits = 0 then .error .noWorkers
  else .ok config

/-- The executor of a configuration. -/
def executorOf (config : ExecutorConfig) : Executor :=
  match config.kind with
  | .blocking => .blocking
  | .callback => .callback
  | .queued => .queued config.workers config.permits

/-- The table of configured records; none if there are none. The first record that cannot be read
refuses the configuration. -/
def tableOf (kind : String) (records : List (String × String)) :
    Except ConfigError (Option Policy.Table) :=
  if records = [] then .ok none
  else (records.foldlM addRecord Policy.Table.empty).map some
where
  /-- A table with one more record. -/
  addRecord (table : Policy.Table) (entry : String × String) : Except ConfigError Policy.Table :=
    match table.add entry.1 entry.2 with
    | .ok next => .ok next
    | .error cause => .error (.malformedRecord kind entry.1 cause)

/-- The policy of a configuration, unless one of its records cannot be read. -/
def policyOf (config : PolicyConfig) : Except ConfigError Policy := do
  let overrides ← tableOf "override" config.overrides
  let fallbacks ← tableOf "fallback" config.fallbacks
  return {
    defaultExplanation :=
      if config.defaultExplanation = "" then none else some config.defaultExplanation
    bestGuess := if config.useBestGuess then some config.bestGuess else none
    trustedForwarder := if config.useTrustedForwarder then some config.trustedForwarder else none
    isStrict := config.isStrict
    overrides := overrides
    fallbacks := fallbacks }

end Config

end SenderPolicy
