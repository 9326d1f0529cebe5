import ContractAdmission.Defect
import ContractAdmission.Host
import ContractAdmission.Policy

/-!
# The five checks

Each check is a function of an interface and of what it is held against.  It
answers with the defect that it found, or with none.
-/

namespace ContractAdmission

/-- What an interface is held against. -/
structure Terms where
  host : Host
  policy : Policy
  granted : CapabilitySet

namespace Check

/-- Exactly one export is a memory. -/
def memories (iface : Interface) : Option Defect :=
  match iface.exportsOfKind ExternKind.memory.label with
  | [] => some .noMemory
  | [_] => none
  | _ :: _ :: _ => some .severalMemories

/-- The export names that declare an interface version. -/
def markers (iface : Interface) : List String :=
  iface.exportNames.filter fun name =>
    Host.markerPrefix.toList.isPrefixOf name.toList

/-- Exactly one export declares an interface version, and the host speaks it. -/
def interfaceVersion (iface : Interface) (host : Host) : Option Defect :=
  match markers iface with
  | [] => some .noMarker
  | [marker] =>
      if marker ∈ host.interfaceVersions then none
      else some (.unknownMarker marker host.version host.interfaceVersions)
  | _ :: _ :: _ => some .severalMarkers

/-- The names on a list that are not among the given ones, in list order. -/
def missing (required present : List String) : List String :=
  required.filter fun name => name ∉ present

/-- Every export that the host calls is there. -/
def exports (iface : Interface) (host : Host) : Option Defect :=
  match missing host.requiredExports iface.exportNames with
  | [] => none
  | names => some (.missingExports names host.requiredExports)

/-- Every import that the host insists on is there. -/
def imports (iface : Interface) (host : Host) : Option Defect :=
  match missing host.requiredImports iface.qualifiedNames with
  | [] => none
  | names => some (.missingImports names host.requiredImports)

/-- Every capability that the module requires is granted. -/
def capabilities (iface : Interface) (granted : CapabilitySet) (policy : Policy) :
    Option Defect :=
  match ((policy.required iface).diff granted).toList with
  | [] => none
  | names => some (.missingCapabilities names)

/-- The check of one stage. -/
def run (iface : Interface) (terms : Terms) : Stage → Option Defect
  | .memories => memories iface
  | .interfaceVersion => interfaceVersion iface terms.host
  | .exports => exports iface terms.host
  | .imports => imports iface terms.host
  | .capabilities => capabilities iface terms.granted terms.policy

end Check
end ContractAdmission
