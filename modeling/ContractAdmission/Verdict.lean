/-!
# Stages and verdicts

A contract is checked in five stages.  A verdict is `valid`, or names the stage
at which the contract failed and says why.
-/

namespace ContractAdmission

/-- What a failure is about. -/
inductive Category where
  | structural
  | capability
  deriving DecidableEq, Repr

/-- The word for a category in reports. -/
def Category.label : Category → String
  | .structural => "structural"
  | .capability => "capability"

/-- The five stages of checking. -/
inductive Stage where
  | memories
  | interfaceVersion
  | exports
  | imports
  | capabilities
  deriving DecidableEq, Repr

namespace Stage

/-- The stages in the order in which they run. -/
def all : List Stage :=
  [.memories, .interfaceVersion, .exports, .imports, .capabilities]

/-- The word for a stage in log records. -/
def label : Stage → String
  | .memories => "memories"
  | .interfaceVersion => "interface_version"
  | .exports => "exports"
  | .imports => "imports"
  | .capabilities => "capabilities"

/-- The word for a failure at a stage in verdicts. -/
def kind : Stage → String
  | .memories => "memory"
  | .interfaceVersion => "interface_version"
  | .exports => "exports"
  | .imports => "imports"
  | .capabilities => "capabilities"

/-- The stage whose failures go by a word. -/
def ofKind? (word : String) : Option Stage :=
  all.find? fun stage => stage.kind = word

/-- Only the last stage is about capabilities. -/
def category : Stage → Category
  | .capabilities => .capability
  | _ => .structural

theorem ofKind?_kind (stage : Stage) : ofKind? stage.kind = some stage := by
  cases stage <;> decide

end Stage

/-- The outcome of checking a contract. -/
inductive Verdict where
  | valid
  | invalid (stage : Stage) (reason : String)
  deriving DecidableEq, Repr

/-- Whether a verdict admits the contract. -/
def Verdict.ok : Verdict → Bool
  | .valid => true
  | .invalid _ _ => false

end ContractAdmission
