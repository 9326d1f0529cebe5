import ContractAdmission.Admission
import ContractAdmission.Disk
import ContractAdmission.Wasm.Compile

/-!
# Contracts

A contract is a file with a binary.  It is looked up, read, compiled and held
against the terms of a request, in this order, and the first thing that goes
wrong is what is reported.

`ContractError` holds what the program reports as its own.  A request with an
unknown name, and a path that cannot be asked for, are errors of whoever asked.
-/

namespace ContractAdmission

/-- Why a contract has no verdict. -/
inductive ContractError where
  | notFound (path : String)
  | unreadable (path : String) (fault : ReadFault)
  | notCompiled (error : CompileError)
  deriving DecidableEq, Repr

/-- The text that reports that a contract has no verdict. -/
def ContractError.message : ContractError → String
  | .notFound path => "File " ++ path ++ " does not exist"
  | .unreadable path fault => "Unable to read " ++ path ++ ": " ++ fault.message
  | .notCompiled error => error.message

/-- Why a check ends without a verdict. -/
inductive CheckError where
  | contract (error : ContractError)
  | lookup (error : LookupError)
  | unaskable
  deriving DecidableEq, Repr

/-- A verdict, or why there is none, and the log. -/
abbrev Checked := Logged (Except CheckError Verdict)

/-- The verdict on the bytes of a contract. -/
def validate (bytes : Bytes) (request : Request) (engine : Wasm.Engine := {}) : Checked :=
  match Wasm.compile engine bytes with
  | .error error => .pure (.error (.contract (.notCompiled error)))
  | .ok iface =>
      let outcome := assess iface request
      ⟨Wasm.compiledRecord iface :: outcome.records, outcome.value.mapError .lookup⟩

/-- The record of a contract that was read. -/
def checkingRecord (path : String) (bytes : Bytes) : Record :=
  ⟨.info, .validator,
    "Checking contract " ++ path ++ " (" ++ Text.decimal bytes.length ++ " bytes)"⟩

/-- The verdict on the contract at a path. -/
def checkContract (disk : Disk) (fault : Option ReadFault) (path : String)
    (request : Request) : Checked :=
  match disk.look path with
  | .unaskable => .pure (.error .unaskable)
  | .directory | .absent => .pure (.error (.contract (.notFound path)))
  | .file bytes =>
      match fault with
      | some fault => .pure (.error (.contract (.unreadable path fault)))
      | none =>
          let outcome := validate bytes request
          ⟨checkingRecord path bytes :: outcome.records, outcome.value⟩

end ContractAdmission
