import ContractAdmission.Cli.Arguments
import ContractAdmission.Cli.Usage
import ContractAdmission.ConfigFile
import ContractAdmission.Contract
import ContractAdmission.Report

/-!
# Runs of the program

A run reads its arguments, takes the configuration, checks the contract and
writes the answer.  What the arguments say goes before what the configuration
says.

* `Arguments.check` is the run without its texts: the log and the verdict.
* `run` is what is written and how the run ends.
-/

namespace ContractAdmission
namespace Cli

/-- The names under which the program is started and logs. -/
structure Program where
  name : String
  logger : String
  deriving DecidableEq, Repr

/-- The program as a command. -/
def Program.command : Program := ⟨"cwcheck", "cwcheck.main"⟩

/-- What a run finds around it: the files, the environment, and the fault with
which a contract is read, if there is one. -/
structure World where
  disk : Disk
  environment : Environment := {}
  fault : Option ReadFault := none

/-- Why a run ends without an answer of its own. -/
inductive Escape where
  | config (error : ConfigError)
  | lookup (error : LookupError)
  | unaskable
  /-- Capabilities are asked for without a text that names them. -/
  | valueless
  deriving DecidableEq, Repr

namespace Arguments

/-- The configuration that arguments ask for.  An empty path of a file counts as
none. -/
def configuration (arguments : Arguments) (world : World) : Except ConfigError Config :=
  let path := arguments.options.config.getD ""
  if path = "" then (Config.ofEnvironment world.environment).mapError .invalid
  else Config.ofFile world.disk world.environment path

/-- The paths that a run looks at. -/
def paths (arguments : Arguments) : List Path :=
  [arguments.options.config.getD "", arguments.path].filterMap Path.ofText?

/-- The capabilities that are granted, if every use of their option has a text. -/
def granted? (arguments : Arguments) (config : Config) : Option CapabilitySet :=
  match arguments.options.capabilities with
  | some texts => (texts.mapM id).map .parse
  | none => some (.ofList config.capabilities)

/-- What is asked for, if it can be. -/
def request? (arguments : Arguments) (config : Config) : Option Request :=
  (arguments.granted? config).map fun granted => {
    granted
    hostVersion := arguments.options.hostVersion.getD config.hostVersion
    policyName := arguments.options.policyName.getD config.policyName }

/-- The record of an error. -/
def errorRecord (program : Program) (message : String) : Record :=
  ⟨.error, .main program.logger, message⟩

/-- The verdict on the contract, or nothing if an error was reported instead. -/
def check (arguments : Arguments) (program : Program) (world : World) :
    Logged (Except Escape (Option Verdict)) :=
  match arguments.configuration world with
  | .error error =>
      match error.message? with
      | none => ⟨[], .error (.config error)⟩
      | some message =>
          ⟨[errorRecord program ("Invalid configuration: " ++ message)], .ok none⟩
  | .ok config =>
      match arguments.request? config with
      | none => ⟨[], .error .valueless⟩
      | some request =>
          let checked := checkContract world.disk world.fault arguments.path request
          match checked.value with
          | .ok verdict => ⟨checked.records, .ok (some verdict)⟩
          | .error (.contract error) =>
              ⟨checked.records ++ [errorRecord program error.message], .ok none⟩
          | .error (.lookup error) => ⟨checked.records, .error (.lookup error)⟩
          | .error .unaskable => ⟨checked.records, .error .unaskable⟩

/-- The line that tells a verdict. -/
def verdictLine (arguments : Arguments) (verdict : Verdict) : String :=
  if arguments.options.json then verdict.report
  else
    match verdict with
    | .valid => arguments.path ++ ": valid"
    | .invalid stage reason =>
        arguments.path ++ ": invalid (" ++ stage.kind ++ "): " ++ reason

end Arguments

namespace Options

/-- Whether records of a level are written. -/
def shows (options : Options) : Level → Bool
  | .debug => options.verbose
  | .info | .error => true

/-- The records of a log that are written. -/
def visible (options : Options) (records : List Record) : List Record :=
  records.filter fun record => options.shows record.level

/-- All records are written when all are asked for. -/
theorem visible_of_verbose {options : Options} (records : List Record)
    (h : options.verbose = true) : options.visible records = records := by
  refine List.filter_eq_self.2 fun record _ => ?_
  cases record.level <;> simp [shows, h]

/-- When not all records are asked for, those for debugging are left out. -/
theorem visible_of_not_verbose {options : Options} (records : List Record)
    (h : options.verbose = false) :
    options.visible records = records.filter fun record => record.level ≠ .debug := by
  refine List.filter_congr fun record _ => ?_
  cases record.level <;> simp [shows, h]

end Options

/-- How a run ends. -/
inductive Ending where
  | exit (code : Nat)
  | escape (error : Escape)
  deriving DecidableEq, Repr

/-- What a run writes, and how it ends. -/
structure Outcome where
  stdout : String := ""
  stderr : String := ""
  ending : Ending
  deriving DecidableEq, Repr

/-- The exit code for a verdict, or for an error that was reported. -/
def exitCode : Option Verdict → Nat
  | some .valid => 0
  | some (.invalid _ _) => 1
  | none => 2

/-- Only a valid contract ends a run with zero. -/
theorem exitCode_eq_zero_iff {verdict : Option Verdict} :
    exitCode verdict = 0 ↔ verdict = some .valid := by
  rcases verdict with _ | (_ | _) <;> simp [exitCode]

/-- What a run with given arguments leaves. -/
def Arguments.run (arguments : Arguments) (program : Program) (world : World) : Outcome :=
  let checked := arguments.check program world
  let stderr := textOfLines ((arguments.options.visible checked.records).map (·.line))
  match checked.value with
  | .error error => { stderr, ending := .escape error }
  | .ok verdict =>
      { stdout := textOfLines (verdict.toList.map arguments.verdictLine)
        stderr
        ending := .exit (exitCode verdict) }

/-- What a run leaves. -/
def run (program : Program) (world : World) (words : List String) : Outcome :=
  match Arguments.parse words with
  | .error .help => { stdout := helpText program.name, ending := .exit 0 }
  | .error (.usage error) =>
      { stderr := error.report program.name, ending := .exit 2 }
  | .ok arguments => arguments.run program world

end Cli
end ContractAdmission
