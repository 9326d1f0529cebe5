import ContractAdmission.CapabilitySet
import ContractAdmission.Interface

/-!
# Capability policies

A policy says which host capabilities a module requires.  The catalog lists the
policies by name.  A list of declarations is fit to be a catalog when no two of
them take the same name; `Declaration.clashes` finds those that do.
-/

namespace ContractAdmission

/-- How the capabilities that a module requires are found. -/
inductive Policy where
  /-- No module requires any capability. -/
  | unrestricted
  /-- A module requires what its marker exports name. -/
  | markerExports
  deriving DecidableEq, Repr

namespace Policy

/-- The name of a policy in configurations and on the command line. -/
def name : Policy → String
  | .unrestricted => "none"
  | .markerExports => "requires_exports"

/-- The catalog, in the order in which messages list it. -/
def catalog : List Policy := [.unrestricted, .markerExports]

/-- The names of the policies in the catalog. -/
def knownNames : List String := catalog.map name

/-- The name that is assumed where none is given. -/
def defaultName : String := Policy.unrestricted.name

/-- The policy of a name. -/
def ofName? (text : String) : Option Policy :=
  catalog.find? fun policy => policy.name = text

/-- The beginning of every marker export that names a required capability. -/
def markerPrefix : String := "requires_"

/-- The capability that an export name asks for: what follows the marker prefix,
unless nothing follows it. -/
def markedCapability? (exportName : String) : Option String :=
  if markerPrefix.toList.isPrefixOf exportName.toList then
    match exportName.toList.drop markerPrefix.length with
    | [] => none
    | rest => some (String.ofList rest)
  else none

/-- The capabilities that a module requires under a policy. -/
def required : Policy → Interface → CapabilitySet
  | .unrestricted, _ => .empty
  | .markerExports, iface =>
      .ofList (iface.exportNames.filterMap markedCapability?)

theorem ofName?_name (policy : Policy) : ofName? policy.name = some policy := by
  cases policy <;> decide

theorem isSome_ofName?_iff {text : String} :
    (ofName? text).isSome ↔ text ∈ knownNames := by
  simp only [ofName?, List.find?_isSome, knownNames, List.mem_map,
    decide_eq_true_eq]

end Policy

/-- The declaration of a policy: the name it takes and what implements it. -/
structure Declaration where
  policyName : String
  home : String
  implementer : String
  deriving DecidableEq, Repr

/-- Two or more declarations that take one name. -/
structure Clash where
  policyName : String
  members : List Declaration
  deriving DecidableEq, Repr

namespace Declaration

/-- The form in which a report shows an implementer. -/
def shown (declaration : Declaration) : String :=
  "<class '" ++ declaration.home ++ "." ++ declaration.implementer ++ "'>"

/-- The names that declarations take, each once, in order of first use. -/
def names (declarations : List Declaration) : List String :=
  (declarations.map (·.policyName)).eraseDups

/-- The declarations that take a name, in their order. -/
def ofName (declarations : List Declaration) (policyName : String) :
    List Declaration :=
  declarations.filter fun declaration => declaration.policyName = policyName

/-- One clash for each name that is taken more than once, in order of first
use. -/
def clashes (declarations : List Declaration) : List Clash :=
  (names declarations).filterMap fun policyName =>
    let members := ofName declarations policyName
    if 1 < members.length then some ⟨policyName, members⟩ else none

/-- Refuses declarations that clash. -/
def checkDistinct (declarations : List Declaration) : Except (List Clash) Unit :=
  match clashes declarations with
  | [] => .ok ()
  | found => .error found

end Declaration

namespace Clash

/-- One line of the report on clashes. -/
def line (clash : Clash) : String :=
  "* POLICY_TYPE: '" ++ clash.policyName ++
    "' is duplicated for these POLICY_CLASSES: [" ++
    ", ".intercalate (clash.members.map (·.shown)) ++ "]"

/-- The report on clashes. -/
def report (found : List Clash) : String :=
  "The POLICY_CATALOG cannot be constructed since some policies have duplicated " ++
    "`POLICY_TYPE`s. The following is the list of duplicates and their classes:\n" ++
    "\n".intercalate (found.map line)

end Clash
end ContractAdmission
