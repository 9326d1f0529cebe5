/-!
# Host tables

What one version of the host virtual machine expects of a contract: the
interface versions it speaks, the exports it calls and the imports it insists
on.  The checks read nothing about a host but its table.
-/

namespace ContractAdmission

/-- The expectations of one host version. -/
structure Host where
  version : String
  interfaceVersions : List String
  requiredExports : List String
  requiredImports : List String
  deriving DecidableEq, Repr

namespace Host

/-- The beginning of every marker export that declares an interface version. -/
def markerPrefix : String := "interface_version_"

/-- The first CosmWasm host version. -/
def cosmwasm1 : Host where
  version := "cosmwasm-1"
  interfaceVersions := ["interface_version_7", "interface_version_8"]
  requiredExports := ["allocate", "deallocate", "instantiate"]
  requiredImports :=
    ["env.abort", "env.db_read", "env.db_write", "env.db_remove",
      "env.addr_validate", "env.addr_canonicalize", "env.addr_humanize",
      "env.secp256k1_verify", "env.secp256k1_recover_pubkey",
      "env.ed25519_verify", "env.ed25519_batch_verify", "env.debug",
      "env.query_chain", "env.db_scan", "env.db_next"]

/-- The known hosts, in the order in which messages list them. -/
def known : List Host := [cosmwasm1]

/-- The versions of the known hosts. -/
def knownVersions : List String := known.map (·.version)

/-- The version that is assumed where none is given. -/
def defaultVersion : String := cosmwasm1.version

/-- The known host of a version. -/
def ofVersion? (version : String) : Option Host :=
  known.find? fun host => host.version = version

theorem isSome_ofVersion?_iff {version : String} :
    (ofVersion? version).isSome ↔ version ∈ knownVersions := by
  simp only [ofVersion?, List.find?_isSome, knownVersions, List.mem_map,
    decide_eq_true_eq]

end Host
end ContractAdmission
