import SenderPolicy.Executor

/-!
# Options of the command

The command takes options only. Some are switches; the others take a value, which stands behind an
equals sign, right behind a short name, or in the next argument, where it must not look like an
option. Short names of switches may share one dash. No option may be given twice.

## Main definitions

* `Switch`, `Choice`: the options without and with a value
* `readGiven`: the options that arguments give, in order
* `Options`: what the options say
* `Options.read`: the options of arguments, unless they are misused
-/

namespace SenderPolicy.CommandLine

open Text

/-- The options without a value. -/
inductive Switch where
  | bestGuess
  | trustedForwarder
  | strict
  | json
  | verbose
  | debug
  | help
deriving DecidableEq, Repr

/-- The options with a value. -/
inductive Choice where
  | address
  | sender
  | helo
  | explanation
  | executor
  | config
deriving DecidableEq, Repr

/-- An option as it is given. -/
inductive Given where
  | switch (option : Switch)
  | choice (option : Choice) (value : String)
deriving DecidableEq, Repr

/-- The option of a long name. -/
def ofLong? : String → Option (Switch ⊕ Choice)
  | "use-best-guess" => some (.inl .bestGuess)
  | "trusted-forwarder" => some (.inl .trustedForwarder)
  | "strict" => some (.inl .strict)
  | "json" => some (.inl .json)
  | "verbose" => some (.inl .verbose)
  | "debug" => some (.inl .debug)
  | "help" => some (.inl .help)
  | "ip" => some (.inr .address)
  | "sender" => some (.inr .sender)
  | "helo" => some (.inr .helo)
  | "default-explanation" => some (.inr .explanation)
  | "executor" => some (.inr .executor)
  | "config" => some (.inr .config)
  | _ => none

/-- The option of a short name. -/
def ofShort? : Char → Option (Switch ⊕ Choice)
  | 'v' => some (.inl .verbose)
  | 'd' => some (.inl .debug)
  | 'h' => some (.inl .help)
  | 'i' => some (.inr .address)
  | 's' => some (.inr .sender)
  | 'H' => some (.inr .helo)
  | 'e' => some (.inr .executor)
  | 'c' => some (.inr .config)
  | _ => none

/-! ## Single arguments -/

/-- A value behind a short name, without the equals sign that may stand in between. -/
def attached : List Char → String
  | '=' :: cs => String.ofList cs
  | cs => String.ofList cs

/-- What short names behind one dash give, and the option that still needs its value. -/
def readShorts : List Char → Option (List Given × Option Choice)
  | [] => some ([], none)
  | c :: cs =>
    match ofShort? c with
    | some (.inl option) => (readShorts cs).map fun (given, open?) => (.switch option :: given, open?)
    | some (.inr option) =>
      if cs = [] then some ([], some option) else some ([.choice option (attached cs)], none)
    | none => none

/-- What a long name gives, and the option that still needs its value. -/
def readLong (cs : List Char) : Option (List Given × Option Choice) :=
  let name := String.ofList (cs.takeWhile (· ≠ '='))
  match ofLong? name, cs.dropWhile (· ≠ '=') with
  | some (.inl option), [] => some ([.switch option], none)
  | some (.inr option), [] => some ([], some option)
  | some (.inr option), _ :: value => some ([.choice option (String.ofList value)], none)
  | _, _ => none

/-- What one argument gives, and the option that still needs its value. -/
def readArgument (argument : String) : Option (List Given × Option Choice) :=
  match argument.toList with
  | '-' :: '-' :: cs => readLong cs
  | '-' :: c :: cs => readShorts (c :: cs)
  | _ => none

/-- The argument looks like an option. A dash by itself does not. -/
def looksLikeOption (argument : String) : Bool :=
  argument.toList.head? = some '-' && argument ≠ "-"

/-- The options that arguments give, in order. Two dashes may end them. -/
def readGiven : List String → Option (List Given)
  | [] => some []
  | argument :: rest =>
    -- behind two dashes come arguments that are no options, and there are none of these
    if argument = "--" then if rest = [] then some [] else none
    else
      match readArgument argument with
      | none => none
      | some (given, none) => (readGiven rest).map (given ++ ·)
      | some (given, some option) =>
        match rest with
        | [] => none
        | value :: rest =>
          -- a value that looks like an option has to stand behind an equals sign
          if looksLikeOption value then none
          else (readGiven rest).map (given ++ .choice option value :: ·)

/-! ## All options -/

/-- What the options say. -/
structure Options where
  address : String
  sender : String
  helo : String
  explanation : Option String
  useBestGuess : Bool
  useTrustedForwarder : Bool
  isStrict : Bool
  executor : Option Executor.Kind
  config : Option String
  asJson : Bool
  isVerbose : Bool
  isDebugging : Bool
deriving DecidableEq, Repr

/-- Why there is nothing to check. -/
inductive Refusal where
  /-- The options are asked for. -/
  | help
  /-- The options are misused. -/
  | misuse
deriving DecidableEq, Repr

/-- What an option is named by, whatever its value. -/
def Given.option : Given → Switch ⊕ Choice
  | switch option => .inl option
  | choice option _ => .inr option

/-- The value of an option, if it is given. -/
def valueOf (given : List Given) (option : Choice) : Option String :=
  given.findSome? fun
    | .choice other value => if other = option then some value else none
    | .switch _ => none

/-- An executor's word that can be read, if it is given. -/
def executorOf (given : List Given) : Option (Option Executor.Kind) :=
  match valueOf given .executor with
  | some word => (Executor.Kind.read word).toOption.map some
  | none => some none

/-- A file's name, which is not empty, if it is given. -/
def configOf (given : List Given) : Option (Option String) :=
  match valueOf given .config with
  | some name => if name = "" then none else some (some name)
  | none => some none

/-- What given options say; the client's address has to be among them, and none stands twice. -/
def Options.ofGiven (given : List Given) : Option Options :=
  let isOn (option : Switch) : Bool := given.contains (.switch option)
  if ¬ (given.map Given.option).Nodup then none
  else do
    return {
      address := ← valueOf given .address
      sender := (valueOf given .sender).getD ""
      helo := (valueOf given .helo).getD ""
      explanation := valueOf given .explanation
      useBestGuess := isOn .bestGuess
      useTrustedForwarder := isOn .trustedForwarder
      isStrict := isOn .strict
      executor := ← executorOf given
      config := ← configOf given
      asJson := isOn .json
      isVerbose := isOn .verbose
      isDebugging := isOn .debug }

/-- The options of arguments, unless they are asked for or misused. -/
def Options.read (arguments : List String) : Except Refusal Options :=
  match readGiven arguments with
  | none => .error .misuse
  | some given =>
    if given.contains (.switch .help) then .error .help
    else
      match ofGiven given with
      | some options => .ok options
      | none => .error .misuse

end SenderPolicy.CommandLine
