import SenderPolicy.Check
import SenderPolicy.CommandLine.Options
import SenderPolicy.Config.File
import SenderPolicy.Dns.Resolver

/-!
# The command

The command checks one client. It reads its configuration from the file that an option names, else
from one of the usual files; options override what the file sets. The exit code reports the
result; whatever keeps the check from being made has an exit code of its own.

## Main definitions

* `Report`: what a run of the command comes to
* `Failure`: why a run makes no check
* `Options.override`: a configuration with what the options set
* `run`: the report of a run
-/

namespace SenderPolicy.CommandLine

/-- What a run of the command comes to. -/
structure Report where
  exitCode : Nat
  /-- What is printed. -/
  output : String
  /-- What is wrong with the configuration. -/
  complaint : Option ConfigError
deriving DecidableEq, Repr

/-- Why a run makes no check. -/
inductive Failure where
  /-- The configuration cannot be used. -/
  | configuration (cause : ConfigError)
  /-- There is no room for the executor. -/
  | executor
deriving DecidableEq, Repr

/-- The exit code of a run that made no check. -/
def exitUnknown : Nat := 255

/-- The exit code of a run that broke off. -/
def exitBroken : Nat := 101

/-- The report of a run without a check. -/
def Failure.report : Failure → Report
  | configuration cause => ⟨exitUnknown, "", some cause⟩
  | executor => ⟨exitBroken, "", none⟩

/-- The options, for a reader. -/
def help : String := Text.join "\n" [
  "Check whether an IP address may send mail for a domain (SPF)",
  "",
  "Usage: spfquery [OPTIONS] --ip <IP>",
  "",
  "  -i, --ip <IP>                      IP address of the connecting client",
  "  -s, --sender <SENDER>              Envelope sender (MAIL FROM); may be empty",
  "  -H, --helo <HELO>                  HELO/EHLO name of the client",
  "      --default-explanation <TEXT>   Explanation template used on fail",
  "      --use-best-guess               Evaluate a best-guess record for domains without SPF",
  "      --trusted-forwarder            Include the trusted forwarder domain in every record",
  "      --strict                       Require SPF and TXT records to agree",
  "  -e, --executor <EXECUTOR>          Executor: blocking, callback or queued",
  "  -c, --config <CONFIG>              Configuration file path",
  "      --json                         Print the outcome as JSON",
  "  -v, --verbose                      Enable verbose logging",
  "  -d, --debug                        Enable debug logging",
  "  -h, --help                         Print help",
  ""]

/-- A configuration with what the options set. -/
def Options.override (options : Options) (config : Config) : Config :=
  { config with
    policy := { config.policy with
      defaultExplanation := options.explanation.getD config.policy.defaultExplanation
      useBestGuess := config.policy.useBestGuess || options.useBestGuess
      useTrustedForwarder := config.policy.useTrustedForwarder || options.useTrustedForwarder
      isStrict := config.policy.isStrict || options.isStrict }
    executor := { config.executor with
      kind := options.executor.getD config.executor.kind } }

/-- The connection that the options show. -/
def Options.inquiry (options : Options) : Inquiry where
  address := options.address
  sender := options.sender
  helo := options.helo
  receivingDomain := none

/-- The configuration of a run: of the named file, else of the usual ones, with the options on
top. -/
def Options.configuration (options : Options) (fileAt : String → Except FileFault String)
    (usualFiles : List (Except FileFault String)) : Except ConfigError Config :=
  let config :=
    match options.config with
    | some name => Config.ofFile (fileAt name)
    | none => Config.ofUsualFiles usualFiles
  config.map options.override

/-- What checks work with: the policy with the names and the limit of the resolver, unless servers
or records cannot be read. -/
def contextOf (config : Config) : Except ConfigError Evaluation.Context := do
  let resolver ← Dns.Resolver.ofConfig config.dns
  let policy ← Config.policyOf config.policy
  return ⟨policy, resolver.localNames, resolver.recordLimit⟩

/-- The outcome of a run, whose lookups go to the service. -/
def Options.check (options : Options) (fileAt : String → Except FileFault String)
    (usualFiles : List (Except FileFault String)) (service : Dns.Service) (timestamp : Int) :
    Except Failure Outcome := do
  let config ← (options.configuration fileAt usualFiles).mapError .configuration
  let ctx ← (contextOf config).mapError .configuration
  let executor := Config.executorOf config.executor
  if executor.isOpenable then
    return (SenderPolicy.check ctx service executor timestamp options.inquiry).2
  else throw .executor

/-- What is printed of an outcome. -/
def Options.print (options : Options) (outcome : Outcome) : String :=
  let lines := if options.asJson then [outcome.json] else outcome.lines
  String.ofList (lines.flatMap fun line => line.toList ++ ['\n'])

/-- The report of a run. -/
def run (fileAt : String → Except FileFault String)
    (usualFiles : List (Except FileFault String)) (service : Dns.Service) (timestamp : Int)
    (arguments : List String) : Report :=
  match Options.read arguments with
  | .error .help => ⟨0, help, none⟩
  | .error .misuse => ⟨exitUnknown, "", none⟩
  | .ok options =>
    match options.check fileAt usualFiles service timestamp with
    | .error failure => failure.report
    | .ok outcome => ⟨outcome.result.exitCode, options.print outcome, none⟩

end SenderPolicy.CommandLine
