import ContractAdmission.Host
import ContractAdmission.Json
import ContractAdmission.Policy
import ContractAdmission.Setting

/-!
# Configurations

A configuration names a host version, a policy and the capabilities that the
host grants.  What is not set comes from the environment, and what the
environment does not say has a default.  All of it is validated, wherever it
comes from, and every violation is reported.
-/

namespace ContractAdmission

/-- What the environment says about the three fields. -/
structure Environment where
  hostVersion : Option String := none
  policyName : Option String := none
  capabilities : Option String := none
  deriving DecidableEq, Repr

/-- A configuration that was validated. -/
structure Config where
  hostVersion : String
  policyName : String
  capabilities : List String
  deriving DecidableEq, Repr

/-- The fields of a configuration. -/
inductive Field where
  | hostVersion
  | policyName
  | capabilities
  deriving DecidableEq, Repr

namespace Field

/-- The fields in the order in which they are validated. -/
def all : List Field := [.hostVersion, .policyName, .capabilities]

/-- The key under which a field is set. -/
def key : Field → String
  | .hostVersion => "host_version"
  | .policyName => "capability_policy"
  | .capabilities => "capabilities"

/-- The keys of all fields. -/
def keys : List String := all.map key

end Field

/-- One thing that is wrong with the settings of a configuration. -/
inductive Violation where
  | notText (field : Field)
  | unknownHost (version : String)
  | unknownPolicy (name : String)
  | notList
  | itemNotText (index : Nat)
  | unexpected (key : String)
  deriving DecidableEq, Repr

/-- One step on the way to what a violation is about. -/
inductive Step where
  | key (name : String)
  | item (index : Nat)
  deriving DecidableEq, Repr

namespace Violation

/-- The word for a sort of violation. -/
def code : Violation → String
  | .notText _ | .itemNotText _ => "string_type"
  | .unknownHost _ | .unknownPolicy _ => "value_error"
  | .notList => "list_type"
  | .unexpected _ => "extra_forbidden"

/-- What a violation is about. -/
def location : Violation → List Step
  | .notText field => [.key field.key]
  | .unknownHost _ => [.key Field.hostVersion.key]
  | .unknownPolicy _ => [.key Field.policyName.key]
  | .notList => [.key Field.capabilities.key]
  | .itemNotText index => [.key Field.capabilities.key, .item index]
  | .unexpected key => [.key key]

/-- The text that reports a violation. -/
def message : Violation → String
  | .notText _ | .itemNotText _ => "Input should be a valid string"
  | .unknownHost version =>
      "Value error, host_version: " ++ version ++ " does not exist in HOST_ABI_TABLES."
  | .unknownPolicy name =>
      "Value error, capability_policy: " ++ name ++ " does not exist in POLICY_CATALOG."
  | .notList => "Input should be a valid list"
  | .unexpected _ => "Extra inputs are not permitted"

end Violation

namespace Environment

/-- The host version where none is set. -/
def hostVersionOrDefault (environment : Environment) : String :=
  environment.hostVersion.getD Host.defaultVersion

/-- The policy where none is set. -/
def policyNameOrDefault (environment : Environment) : String :=
  environment.policyName.getD Policy.defaultName

/-- The capabilities where none are set. -/
def capabilitiesOrDefault (environment : Environment) : List String :=
  (CapabilitySet.parse [environment.capabilities.getD ""]).toList

/-- What the environment sets a field to. -/
def setting (environment : Environment) : Field → Setting
  | .hostVersion => .text environment.hostVersionOrDefault
  | .policyName => .text environment.policyNameOrDefault
  | .capabilities => .list (environment.capabilitiesOrDefault.map .text)

end Environment

namespace Config

/-- What a field is set to: by the settings or else by the environment. -/
def effective (environment : Environment) (settings : Settings) (field : Field) : Setting :=
  (settings.get? field.key).getD (environment.setting field)

/-- What is wrong with the setting of a field that has to be a known text. -/
def textViolations (field : Field) (known : List String) (unknown : String → Violation) :
    Setting → List Violation
  | .text value => if value ∈ known then [] else [unknown value]
  | _ => [.notText field]

/-- What is wrong with the items of a list of capabilities, the first of which
has a given index. -/
def itemViolations : Nat → List Setting → List Violation
  | _, [] => []
  | index, .text _ :: rest => itemViolations (index + 1) rest
  | index, _ :: rest => .itemNotText index :: itemViolations (index + 1) rest

/-- What is wrong with the setting of a field. -/
def fieldViolations : Field → Setting → List Violation
  | .hostVersion, setting =>
      textViolations .hostVersion Host.knownVersions .unknownHost setting
  | .policyName, setting =>
      textViolations .policyName Policy.knownNames .unknownPolicy setting
  | .capabilities, .list items => itemViolations 0 items
  | .capabilities, _ => [.notList]

/-- The keys that no field has, in order. -/
def unexpectedKeys (settings : Settings) : List String :=
  (settings.map (·.1)).filter fun key => key ∉ Field.keys

/-- Everything that is wrong: the fields in order, and then the keys that no
field has. -/
def violations (environment : Environment) (settings : Settings) : List Violation :=
  (Field.all.flatMap fun field => fieldViolations field (effective environment settings field)) ++
    (unexpectedKeys settings).map .unexpected

/-- The texts in a list of settings. -/
def texts : Setting → List String
  | .list items => items.filterMap (·.text?)
  | _ => []

/-- The configuration that settings make, or everything that is wrong with
them. -/
def ofSettings (environment : Environment) (settings : Settings) :
    Except (List Violation) Config :=
  match violations environment settings with
  | [] => .ok {
      hostVersion := (effective environment settings .hostVersion).text?.getD ""
      policyName := (effective environment settings .policyName).text?.getD ""
      capabilities := texts (effective environment settings .capabilities) }
  | found => .error found

/-- A configuration as a JSON value. -/
def toJson (config : Config) : Json :=
  .object [(Field.hostVersion.key, .string config.hostVersion),
    (Field.policyName.key, .string config.policyName),
    (Field.capabilities.key, .array (config.capabilities.map .string))]

/-- A configuration as indented text. -/
def render (config : Config) : String :=
  config.toJson.renderIndented

end Config
end ContractAdmission
