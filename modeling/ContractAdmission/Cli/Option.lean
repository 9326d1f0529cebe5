import ContractAdmission.Host
import ContractAdmission.Policy

/-!
# Options of the command line

The options, the names they go by, and the values that they take.
-/

namespace ContractAdmission
namespace Cli

/-- The options. -/
inductive Opt where
  | help
  | capabilities
  | hostVersion
  | policy
  | config
  | json
  | verbose
  deriving DecidableEq, Repr

namespace Opt

/-- The names of an option, a short one before a long one. -/
def names : Opt → List String
  | .help => ["-h", "--help"]
  | .capabilities => ["-c", "--capabilities"]
  | .hostVersion => ["--host-version"]
  | .policy => ["--capability-policy"]
  | .config => ["--config"]
  | .json => ["--json"]
  | .verbose => ["-v", "--verbose"]

/-- The options in the order in which messages list them. -/
def all : List Opt :=
  [.help, .capabilities, .hostVersion, .policy, .config, .json, .verbose]

/-- Every name, with the option that goes by it. -/
def named : List (String × Opt) :=
  all.flatMap fun opt => opt.names.map fun name => (name, opt)

/-- The option of a name. -/
def ofName? (name : String) : Option Opt := named.lookup name

/-- The option of a letter. -/
def ofLetter? (letter : Char) : Option Opt := ofName? (String.ofList ['-', letter])

/-- Whether an option takes a value. -/
def takesValue : Opt → Bool
  | .capabilities | .hostVersion | .policy | .config => true
  | .help | .json | .verbose => false

/-- The values that an option is limited to. -/
def choices? : Opt → Option (List String)
  | .hostVersion => some Host.knownVersions
  | .policy => some Policy.knownNames
  | _ => none

/-- The names of an option in messages. -/
def label (opt : Opt) : String := "/".intercalate opt.names

end Opt
end Cli
end ContractAdmission
