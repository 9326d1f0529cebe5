import ContractAdmission.Check
import ContractAdmission.Log
import ContractAdmission.Text.Literal

/-!
# Admission of an interface

The five checks run in order and stop at the first defect.  Each check that ran
leaves a record, and a failure leaves one more.

`judge` takes its terms as they are; `assess` takes the names of a host version
and of a policy, either of which may be unknown.
-/

namespace ContractAdmission

/-- A host version or a policy that is not known. -/
inductive LookupError where
  | unknownHost (version : String)
  | unknownPolicy (name : String)
  deriving DecidableEq, Repr

/-- The text that reports an unknown name. -/
def LookupError.message : LookupError → String
  | .unknownHost version =>
      "Unknown host version: " ++ version ++ ". Known versions: " ++
        ", ".intercalate Host.knownVersions
  | .unknownPolicy name =>
      "policy_type=" ++ Text.literal name ++ " not found in POLICY_CATALOG. " ++
        "Known policies: " ++ ", ".intercalate Policy.knownNames

/-- The known host of a version, or the error that there is none. -/
def Host.resolve (version : String) : Except LookupError Host :=
  match Host.ofVersion? version with
  | some host => .ok host
  | none => .error (.unknownHost version)

/-- The policy of a name, or the error that there is none. -/
def Policy.resolve (name : String) : Except LookupError Policy :=
  match Policy.ofName? name with
  | some policy => .ok policy
  | none => .error (.unknownPolicy name)

/-- The record of a stage that found nothing. -/
def passedRecord (stage : Stage) : Record :=
  ⟨.debug, .validator, "Check " ++ stage.label ++ ": passed"⟩

/-- The records of a stage that found a defect. -/
def failedRecords (stage : Stage) (defect : Defect) : List Record :=
  [⟨.debug, .validator, "Check " ++ stage.label ++ ": failed"⟩,
    ⟨.info, .validator,
      "Wasm contract failed " ++ stage.label ++ " check: " ++ defect.message⟩]

/-- Run the checks of a list of stages up to the first defect. -/
def judgeStages (check : Stage → Option Defect) : List Stage → Logged Verdict
  | [] => .pure .valid
  | stage :: rest =>
      match check stage with
      | none =>
          let later := judgeStages check rest
          ⟨passedRecord stage :: later.records, later.value⟩
      | some defect =>
          ⟨failedRecords stage defect, .ofDefect? (some defect)⟩

/-- The verdict on an interface under given terms. -/
def judge (iface : Interface) (terms : Terms) : Logged Verdict :=
  judgeStages (Check.run iface terms) Stage.all

/-- What a caller asks for by name. -/
structure Request where
  granted : CapabilitySet := .empty
  hostVersion : String := Host.defaultVersion
  policyName : String := Policy.defaultName

/-- The terms that a request names.  The host is looked up before the policy. -/
def Request.terms (request : Request) : Except LookupError Terms := do
  let host ← Host.resolve request.hostVersion
  let policy ← Policy.resolve request.policyName
  return ⟨host, policy, request.granted⟩

/-- The verdict on an interface under a request, if its names are known. -/
def assess (iface : Interface) (request : Request) :
    Logged (Except LookupError Verdict) :=
  match request.terms with
  | .error error => .pure (.error error)
  | .ok terms => (judge iface terms).mapValue .ok

end ContractAdmission
