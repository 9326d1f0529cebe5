import ContractAdmission.Proofs.Checks

/-!
# Admissible contracts

`Admissible` says what a contract for the first CosmWasm host looks like, in terms of
its export and import entries alone: no table, no set of names and no qualified name
is mentioned.  The main statement is that the pipeline accepts exactly the admissible
contracts and has a verdict on all others.

Where the pipeline compares qualified names it could in principle be misled by a full
stop inside a module or a name.  `qualifiedName_eq_iff` says that it is not: a token
with a single full stop can be split in one way only.
-/

namespace ContractAdmission

/-- Whether an entry declares an interface version. -/
def Export.isMarker (entry : Export) : Bool :=
  "interface_version_".toList.isPrefixOf entry.name.toList

/-- The functions that a contract for the first CosmWasm host imports from `env`. -/
def hostFunctionNames : List String :=
  ["abort", "db_read", "db_write", "db_remove", "addr_validate", "addr_canonicalize",
    "addr_humanize", "secp256k1_verify", "secp256k1_recover_pubkey", "ed25519_verify",
    "ed25519_batch_verify", "debug", "query_chain", "db_scan", "db_next"]

/-- What a contract for the first CosmWasm host has to look like under a policy, if
the capabilities on a list are available. -/
structure Admissible (iface : Interface) (available : List String) (policy : Policy) :
    Prop where
  oneMemory : iface.exports.countP (fun entry => entry.kind = "memory") = 1
  oneMarker : iface.exports.countP Export.isMarker = 1
  markerSpoken : ∀ entry ∈ iface.exports, entry.isMarker = true →
    entry.name = "interface_version_7" ∨ entry.name = "interface_version_8"
  entryPoints : ∀ name ∈ ["allocate", "deallocate", "instantiate"],
    ∃ entry ∈ iface.exports, entry.name = name
  hostFunctions : ∀ name ∈ hostFunctionNames,
    ∃ entry ∈ iface.imports, entry.moduleName = "env" ∧ entry.name = name
  declaredGranted : policy = .markerExports → ∀ entry ∈ iface.exports,
    ∀ capability, capability ≠ "" → entry.name = "requires_" ++ capability →
      capability ∈ available

/-- A qualified name without further full stops can be split in one way only. -/
theorem Import.qualifiedName_eq_iff {entry : Import} {moduleName name : String}
    (hmodule : '.' ∉ moduleName.toList) (hname : '.' ∉ name.toList) :
    entry.qualifiedName = moduleName ++ "." ++ name ↔
      entry.moduleName = moduleName ∧ entry.name = name := by
  constructor
  · intro h
    have hchars : moduleName.toList ++ '.' :: name.toList =
        entry.moduleName.toList ++ '.' :: entry.name.toList := by
      have := congrArg String.toList h
      simpa [Import.qualifiedName] using this.symm
    obtain ⟨hfirst, -, hsecond⟩ :=
      (List.append_cons_inj_of_notMem hmodule hname).1 hchars
    exact ⟨String.toList_inj.1 hfirst.symm, String.toList_inj.1 hsecond.symm⟩
  · rintro ⟨rfl, rfl⟩
    rfl

/-- A qualified name of the host's module is there exactly when the function is
imported from that module under its own name. -/
theorem Interface.mem_qualifiedNames_env_iff {iface : Interface} {name : String}
    (hname : '.' ∉ name.toList) :
    "env." ++ name ∈ iface.qualifiedNames ↔
      ∃ entry ∈ iface.imports, entry.moduleName = "env" ∧ entry.name = name := by
  have hmodule : '.' ∉ "env".toList := by decide
  have hsplit : "env." ++ name = "env" ++ "." ++ name := by
    rw [show "env." = "env" ++ "." by decide]
  simp only [Interface.qualifiedNames, List.mem_map, hsplit,
    Import.qualifiedName_eq_iff hmodule hname]

/-- An export name asks for a capability exactly when it is the marker prefix followed
by the name of the capability, which is not empty. -/
theorem Policy.markedCapability?_eq_some_iff {exportName capability : String} :
    markedCapability? exportName = some capability ↔
      capability ≠ "" ∧ exportName = "requires_" ++ capability := by
  have hlength : markerPrefix.length = markerPrefix.toList.length :=
    String.length_toList.symm
  unfold markedCapability?
  by_cases hmarked : markerPrefix.toList.isPrefixOf exportName.toList = true
  · obtain ⟨rest, hrest⟩ := List.isPrefixOf_iff_prefix.1 hmarked
    have hdrop : exportName.toList.drop markerPrefix.length = rest := by
      rw [← hrest, hlength, List.drop_left]
    have hname : exportName = "requires_" ++ String.ofList rest := by
      rw [← String.toList_inj, ← hrest]
      simp [markerPrefix]
    rw [if_pos hmarked, hdrop, hname, String.append_right_inj]
    cases rest with
    | nil =>
        simp only [reduceCtorEq, false_iff, not_and]
        rintro hnonempty rfl
        exact hnonempty rfl
    | cons c rest =>
        simp only [Option.some.injEq]
        constructor
        · rintro rfl
          exact ⟨by simp, rfl⟩
        · rintro ⟨-, heq⟩
          exact heq
  · rw [if_neg hmarked]
    simp only [reduceCtorEq, false_iff, not_and]
    rintro - rfl
    apply hmarked
    simp [markerPrefix]

/-- The names that declare an interface version belong to the marker entries. -/
theorem Check.markers_eq_map {iface : Interface} :
    Check.markers iface = (iface.exports.filter Export.isMarker).map (·.name) := by
  rw [Check.markers, Interface.exportNames, List.filter_map]
  rfl

/-- The check of markers finds nothing exactly when one entry declares an interface
version that the first CosmWasm host speaks. -/
theorem Check.interfaceVersion_cosmwasm1_iff {iface : Interface} :
    Check.interfaceVersion iface Host.cosmwasm1 = none ↔
      iface.exports.countP Export.isMarker = 1 ∧
        ∀ entry ∈ iface.exports, entry.isMarker = true →
          entry.name = "interface_version_7" ∨ entry.name = "interface_version_8" := by
  have hspoken : ∀ marker, marker ∈ Host.cosmwasm1.interfaceVersions ↔
      marker = "interface_version_7" ∨ marker = "interface_version_8" := by
    intro marker
    simp [Host.cosmwasm1]
  have hmem : ∀ entry, entry ∈ iface.exports.filter Export.isMarker ↔
      entry ∈ iface.exports ∧ entry.isMarker = true := fun entry => List.mem_filter
  rw [Check.interfaceVersion_eq_none_iff, Check.markers_eq_map, List.countP_eq_length_filter,
    List.length_eq_one_iff]
  constructor
  · rintro ⟨marker, hmarker, hmarkers⟩
    obtain ⟨entry, hentry, rfl⟩ := List.map_eq_singleton_iff.1 hmarkers
    refine ⟨⟨entry, hentry⟩, ?_⟩
    -- Every marker entry is the only one, whose name is spoken.
    intro other hother hisMarker
    have hsame : other ∈ [entry] := hentry ▸ (hmem other).2 ⟨hother, hisMarker⟩
    rw [List.mem_singleton] at hsame
    subst hsame
    exact (hspoken other.name).1 hmarker
  · rintro ⟨⟨entry, hentry⟩, hall⟩
    obtain ⟨hthere, hisMarker⟩ := (hmem entry).1 (by simp [hentry])
    exact ⟨entry.name, (hspoken entry.name).2 (hall entry hthere hisMarker), by simp [hentry]⟩

/-- The check of exports finds nothing exactly when the three entry points that the
first CosmWasm host calls are exported. -/
theorem Check.exports_cosmwasm1_iff {iface : Interface} :
    Check.exports iface Host.cosmwasm1 = none ↔
      ∀ name ∈ ["allocate", "deallocate", "instantiate"],
        ∃ entry ∈ iface.exports, entry.name = name := by
  rw [Check.exports_eq_none_iff]
  simp only [Host.cosmwasm1, Interface.exportNames, List.mem_map]

/-- The check of imports finds nothing exactly when the functions of the first CosmWasm
host are imported from `env`. -/
theorem Check.imports_cosmwasm1_iff {iface : Interface} :
    Check.imports iface Host.cosmwasm1 = none ↔
      ∀ name ∈ hostFunctionNames,
        ∃ entry ∈ iface.imports, entry.moduleName = "env" ∧ entry.name = name := by
  have htable : Host.cosmwasm1.requiredImports = hostFunctionNames.map ("env." ++ ·) := by
    decide
  -- No function name has a full stop, so each token has one reading only.
  have hplain : ∀ name ∈ hostFunctionNames, '.' ∉ name.toList := by decide
  rw [Check.imports_eq_none_iff, htable, List.forall_mem_map]
  constructor
  · intro h name hname
    exact (Interface.mem_qualifiedNames_env_iff (hplain name hname)).1 (h name hname)
  · intro h name hname
    exact (Interface.mem_qualifiedNames_env_iff (hplain name hname)).2 (h name hname)

/-- The check of capabilities finds nothing exactly when every capability that a marker
export names is available, if the policy reads marker exports at all. -/
theorem Check.capabilities_ofList_iff {iface : Interface} {available : List String}
    {policy : Policy} :
    Check.capabilities iface (.ofList available) policy = none ↔
      (policy = .markerExports → ∀ entry ∈ iface.exports, ∀ capability, capability ≠ "" →
        entry.name = "requires_" ++ capability → capability ∈ available) := by
  rw [Check.capabilities_eq_none_iff]
  cases policy with
  | unrestricted => simp [Policy.required]
  | markerExports =>
      simp only [Policy.required, CapabilitySet.mem_ofList, List.mem_filterMap,
        Interface.exportNames, List.mem_map, Policy.markedCapability?_eq_some_iff,
        forall_const]
      constructor
      · intro h entry hentry capability hnonempty hname
        exact h capability ⟨entry.name, ⟨entry, hentry, rfl⟩, hnonempty, hname⟩
      · rintro h capability ⟨_, ⟨entry, hentry, rfl⟩, hnonempty, hname⟩
        exact h entry hentry capability hnonempty hname

/-- Admissibility is what the five checks of the first CosmWasm host ask for. -/
theorem admissible_iff_checks {iface : Interface} {available : List String}
    {policy : Policy} :
    Admissible iface available policy ↔
      ∀ stage, Check.run iface ⟨Host.cosmwasm1, policy, .ofList available⟩ stage = none := by
  have hmemories : Check.memories iface = none ↔
      iface.exports.countP (fun entry => entry.kind = "memory") = 1 := by
    rw [Check.memories_eq_none_iff, Interface.exportsOfKind, ← List.countP_eq_length_filter]
    rfl
  constructor
  · intro h stage
    cases stage with
    | memories => exact hmemories.2 h.oneMemory
    | interfaceVersion =>
        exact Check.interfaceVersion_cosmwasm1_iff.2 ⟨h.oneMarker, h.markerSpoken⟩
    | exports => exact Check.exports_cosmwasm1_iff.2 h.entryPoints
    | imports => exact Check.imports_cosmwasm1_iff.2 h.hostFunctions
    | capabilities => exact Check.capabilities_ofList_iff.2 h.declaredGranted
  · intro h
    obtain ⟨hone, hspoken⟩ := Check.interfaceVersion_cosmwasm1_iff.1 (h .interfaceVersion)
    exact {
      oneMemory := hmemories.1 (h .memories)
      oneMarker := hone
      markerSpoken := hspoken
      entryPoints := Check.exports_cosmwasm1_iff.1 (h .exports)
      hostFunctions := Check.imports_cosmwasm1_iff.1 (h .imports)
      declaredGranted := Check.capabilities_ofList_iff.1 (h .capabilities) }

/-- **The pipeline accepts exactly the admissible contracts.**  Under the first CosmWasm
host and either policy every interface has a verdict, and the verdict is `valid` if and
only if the interface is admissible. -/
theorem assess_valid_iff_admissible (iface : Interface) (available : List String)
    (policy : Policy) :
    let outcome := (assess iface
      { granted := .ofList available
        hostVersion := "cosmwasm-1"
        policyName := policy.name }).value
    (outcome = .ok .valid ↔ Admissible iface available policy) ∧
      (outcome = .ok .valid ∨ ∃ stage reason, outcome = .ok (.invalid stage reason)) := by
  intro outcome
  have houtcome : outcome =
      .ok (judge iface ⟨Host.cosmwasm1, policy, .ofList available⟩).value := by
    let request : Request := ⟨.ofList available, "cosmwasm-1", policy.name⟩
    have hhost : Host.resolve request.hostVersion = .ok Host.cosmwasm1 := Host.resolve_cosmwasm1
    have hpolicy : Policy.resolve request.policyName = .ok policy := Policy.resolve_name policy
    exact congrArg Logged.value (assess_of_known iface hhost hpolicy)
  rw [houtcome, Except.ok.injEq, judge_valid_iff, admissible_iff_checks]
  refine ⟨Iff.rfl, ?_⟩
  rw [← judge_valid_iff]
  cases (judge iface ⟨Host.cosmwasm1, policy, .ofList available⟩).value with
  | valid => exact Or.inl rfl
  | invalid stage reason => exact Or.inr ⟨stage, reason, rfl⟩

end ContractAdmission
