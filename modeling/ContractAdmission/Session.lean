import ContractAdmission.Admission

/-!
# Sessions

An interface and a request that are built up, and taken down, step by step,
with a verdict after every step.
-/

namespace ContractAdmission

/-- One change to what is being judged. -/
inductive Edit where
  | addExport (entry : Export)
  | dropExports (name : String)
  | addImport (entry : Import)
  | dropImports (moduleName name : String)
  | grant (capability : String)
  | revoke (capability : String)
  | setPolicy (name : String)
  | setHostVersion (version : String)
  | keep
  deriving DecidableEq, Repr

/-- What is being judged: an interface, the capabilities granted so far in order
of granting, and the names of the host version and of the policy. -/
structure Session where
  iface : Interface := {}
  granted : List String := []
  hostVersion : String := Host.defaultVersion
  policyName : String := Policy.defaultName

namespace Session

/-- The request that a session makes. -/
def request (session : Session) : Request where
  granted := .ofList session.granted
  hostVersion := session.hostVersion
  policyName := session.policyName

/-- The session after an edit. -/
def apply (session : Session) : Edit → Session
  | .addExport entry =>
      { session with iface.exports := session.iface.exports ++ [entry] }
  | .dropExports name =>
      { session with
        iface.exports := session.iface.exports.filter fun entry => entry.name ≠ name }
  | .addImport entry =>
      { session with iface.imports := session.iface.imports ++ [entry] }
  | .dropImports moduleName name =>
      { session with
        iface.imports := session.iface.imports.filter fun entry =>
          ¬ (entry.moduleName = moduleName ∧ entry.name = name) }
  | .grant capability => { session with granted := session.granted ++ [capability] }
  | .revoke capability =>
      { session with granted := session.granted.filter fun name => name ≠ capability }
  | .setPolicy name => { session with policyName := name }
  | .setHostVersion version => { session with hostVersion := version }
  | .keep => session

/-- The verdict on a session, if the names that it uses are known. -/
def verdict (session : Session) : Except LookupError Verdict :=
  (assess session.iface session.request).value

/-- The verdicts after each of a list of edits. -/
def run (session : Session) : List Edit → List (Except LookupError Verdict)
  | [] => []
  | edit :: rest =>
      let next := session.apply edit
      next.verdict :: next.run rest

end Session
end ContractAdmission
