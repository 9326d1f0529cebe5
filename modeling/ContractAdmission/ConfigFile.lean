import ContractAdmission.Config
import ContractAdmission.Disk
import ContractAdmission.Yaml.Meaning

/-!
# Configuration files

A configuration is read from a file with a document, completed from the
environment, and validated.  The errors are sorted by what goes wrong first: the
file, the document in it, or the settings that the document makes.
-/

namespace ContractAdmission

/-- Why a file gives no configuration. -/
inductive ConfigError where
  | notFile (path : String)
  /-- The path cannot be asked for. -/
  | unaskable
  /-- The path names a directory, but a file stands there. -/
  | notDirectory
  | document (error : Yaml.DocumentError)
  | invalid (violations : List Violation)
  deriving DecidableEq, Repr

namespace ConfigError

/-- The text that reports that a path has no file. -/
def notFileMessage (path : String) : String :=
  "config_filename: " ++ path ++ " is not a file. Please check if it exists."

/-- The text that reports how many violations there are. -/
def countMessage (count : Nat) : String :=
  Text.decimal count ++ (if count = 1 then " validation error" else " validation errors") ++
    " for ConfigModel"

/-- The text that reports an error.  Only some errors have one: a path without a
file, bytes that encode no text, a number or date that does not exist, and settings
that are not valid. -/
def message? : ConfigError → Option String
  | .notFile path => some (notFileMessage path)
  | .invalid violations => some (countMessage violations.length)
  | .document (.fault .undecodable) | .document (.fault .impossibleValue) => some "<detail>"
  | .document _ | .unaskable | .notDirectory => none

end ConfigError

namespace Config

/-- The file that is read where none is named. -/
def standardPath : String := "config/cwcheck.yaml"

/-- The configuration that the bytes of a document make. -/
def ofBytes (environment : Environment) (bytes : Bytes) : Except ConfigError Config :=
  match Yaml.Document.settingsOfBytes bytes with
  | .error error => .error (.document error)
  | .ok settings =>
      match ofSettings environment settings with
      | .error violations => .error (.invalid violations)
      | .ok config => .ok config

/-- The configuration in the file at a path.  The file is looked up under the
path without the components that say nothing, but opened under the path as it is
given. -/
def ofFile (disk : Disk) (environment : Environment) (path : String) :
    Except ConfigError Config :=
  match disk.look path with
  | .unaskable => .error .unaskable
  | .directory | .absent => .error (.notFile path)
  | .file bytes =>
      if maxPathBytes < path.utf8ByteSize then .error .unaskable
      else if Path.namesDirectory path then .error .notDirectory
      else ofBytes environment bytes

/-- The text that shows the configuration in the standard file. -/
def standardText (disk : Disk) (environment : Environment) : Except ConfigError String :=
  (ofFile disk environment standardPath).map fun config => config.render ++ "\n"

/-- The configuration of the environment alone. -/
def ofEnvironment (environment : Environment) : Except (List Violation) Config :=
  ofSettings environment []

end Config
end ContractAdmission
