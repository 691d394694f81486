import SenderPolicy.CommandLine
import Std.Time.DateTime.Timestamp

/-!
# The program

Reads files and the clock, and prints the report of a run. No server can be reached from here, so
every lookup fails: checked are domains whose records are configured.
-/

namespace SenderPolicy.CommandLine

/-- The files that a configuration is read from unless one is named. -/
def usualNames : List String := ["./spfquery.toml", "/etc/spfquery/config.toml"]

/-- The fault behind an error of the system. -/
def faultOf : IO.Error → FileFault
  | .inappropriateType _ code _ => if code = 21 then .folder else .notFolder
  | .invalidArgument _ _ _ => .nameTooLong
  | .permissionDenied _ _ _ => .denied
  | .userError _ => .notText
  | _ => .missing

/-- The content of a file, if it can be read. -/
def contentOf (name : String) : IO (Except FileFault String) := do
  try return .ok (← IO.FS.readFile name)
  catch e => return .error (faultOf e)

/-- The name of the file that the arguments name. -/
def namedFile (arguments : List String) : Option String :=
  match Options.read arguments with
  | .ok options => options.config
  | .error _ => none

/-- A service that reaches no server. -/
def unreachable : Dns.Service := fun request =>
  .error (.failure (request.text ++ ": no server can be reached"))

end SenderPolicy.CommandLine

open SenderPolicy.CommandLine in
/-- Prints the report of a run; what is wrong with the configuration goes to standard error. -/
def main (arguments : List String) : IO UInt32 := do
  let named ← (namedFile arguments).mapM contentOf
  let usual ← usualNames.mapM contentOf
  let now ← Std.Time.Timestamp.now
  let report := run (fun _ => named.getD (.error .missing)) usual unreachable
    now.toSecondsSinceUnixEpoch.val arguments
  IO.print report.output
  match report.complaint with
  | some cause => IO.eprintln ("spfquery: [" ++ cause.code ++ "] " ++ cause.message)
  | none => if report.exitCode = exitUnknown then IO.eprint help
  return report.exitCode.toUInt32
