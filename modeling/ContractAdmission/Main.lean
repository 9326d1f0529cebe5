import ContractAdmission.Cli.Run

/-!
# The program

Reads the files that a run looks at, and writes what the run leaves.
-/

namespace ContractAdmission
namespace Cli

/-- What stands at a path, and the fault with which it is read, if there is one. -/
def visit (path : Path) : IO (Found × Option ReadFault) := do
  try
    let contents ← IO.FS.readBinFile path.text
    return (.file contents.toList, none)
  catch
    | .inappropriateType .. => return (.directory, none)
    | .invalidArgument .. => return (.unaskable, none)
    | .permissionDenied _ code explanation | .hardwareFault code explanation =>
        return (.file [], some ⟨code.toNat, explanation⟩)
    | _ => return (.absent, none)

/-- What a run with given words finds around it. -/
def surroundings (words : List String) : IO World := do
  let hostVersion ← IO.getEnv "CWCHECK_HOST_VERSION"
  let policyName ← IO.getEnv "CWCHECK_CAPABILITY_POLICY"
  let capabilities ← IO.getEnv "CWCHECK_CAPABILITIES"
  let paths := match Arguments.parse words with
    | .ok arguments => arguments.paths
    | .error _ => []
  let visited ← paths.mapM fun path => return (path, ← visit path)
  return {
    disk := ⟨fun path => ((visited.lookup path).map (·.1)).getD .absent⟩
    environment := { hostVersion, policyName, capabilities }
    fault := visited.getLast?.bind (·.2.2) }

/-- Write what a run leaves, and give the code with which the program ends. -/
def Outcome.deliver (outcome : Outcome) : IO UInt32 := do
  IO.eprint outcome.stderr
  IO.print outcome.stdout
  match outcome.ending with
  | .exit code => return code.toUInt32
  | .escape _ => return 1

end Cli
end ContractAdmission

def main (words : List String) : IO UInt32 := do
  let world ← ContractAdmission.Cli.surroundings words
  (ContractAdmission.Cli.run .command world words).deliver
