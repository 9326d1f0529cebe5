import ContractAdmission.Admission
import Mathlib.Data.List.Basic

/-!
# What the checks find

Each of the five checks finds nothing exactly when an interface has the property
that the check is about, and the pipeline finds nothing exactly when every stage
finds nothing.

* `judgeStages_valid_iff` and `judge_valid_iff` — the pipeline accepts when all of its
  stages do.
* `assess_of_known` — a request whose names are known is judged, so that it has a
  verdict and no error.

The lemmas about single checks are stated for every host and every policy.
-/

namespace ContractAdmission

namespace Check

/-- The check of memories counts exports of one kind, whatever their names are. -/
theorem memories_eq_none_iff {iface : Interface} :
    memories iface = none ↔
      (iface.exportsOfKind ExternKind.memory.label).length = 1 := by
  unfold memories
  cases iface.exportsOfKind ExternKind.memory.label with
  | nil => simp
  | cons first rest =>
      cases rest with
      | nil => simp
      | cons second rest => simp

/-- The check of markers accepts a single marker that the host speaks. -/
theorem interfaceVersion_eq_none_iff {iface : Interface} {host : Host} :
    interfaceVersion iface host = none ↔
      ∃ marker ∈ host.interfaceVersions, markers iface = [marker] := by
  unfold interfaceVersion
  cases hmarkers : markers iface with
  | nil => simp
  | cons first rest =>
      cases rest with
      | nil =>
          by_cases hspoken : first ∈ host.interfaceVersions
          · simp [hspoken]
          · simp [hspoken]
      | cons second rest => simp

/-- Nothing is missing when every name that is asked for is there. -/
theorem missing_eq_nil_iff {required present : List String} :
    missing required present = [] ↔ ∀ name ∈ required, name ∈ present := by
  simp [missing, List.filter_eq_nil_iff]

/-- The check of exports looks at names alone. -/
theorem exports_eq_none_iff {iface : Interface} {host : Host} :
    exports iface host = none ↔
      ∀ name ∈ host.requiredExports, name ∈ iface.exportNames := by
  rw [← missing_eq_nil_iff]
  unfold exports
  cases missing host.requiredExports iface.exportNames with
  | nil => simp
  | cons name names => simp

/-- The check of imports looks at qualified names alone. -/
theorem imports_eq_none_iff {iface : Interface} {host : Host} :
    imports iface host = none ↔
      ∀ name ∈ host.requiredImports, name ∈ iface.qualifiedNames := by
  rw [← missing_eq_nil_iff]
  unfold imports
  cases missing host.requiredImports iface.qualifiedNames with
  | nil => simp
  | cons name names => simp

/-- The check of capabilities compares two sets. -/
theorem capabilities_eq_none_iff {iface : Interface} {granted : CapabilitySet}
    {policy : Policy} :
    capabilities iface granted policy = none ↔
      ∀ name ∈ policy.required iface, name ∈ granted := by
  have hmembers : ((policy.required iface).diff granted).toList = [] ↔
      ∀ name ∈ policy.required iface, name ∈ granted := by
    rw [List.eq_nil_iff_forall_not_mem]
    constructor
    · intro hempty name hrequired
      by_contra hlacking
      exact hempty name (CapabilitySet.mem_diff.2 ⟨hrequired, hlacking⟩)
    · intro hgranted name hmem
      obtain ⟨hrequired, hlacking⟩ := CapabilitySet.mem_diff.1 hmem
      exact hlacking (hgranted name hrequired)
  rw [← hmembers]
  unfold capabilities
  cases ((policy.required iface).diff granted).toList with
  | nil => simp
  | cons name names => simp

end Check

/-- A pipeline accepts exactly when each of its stages finds nothing. -/
theorem judgeStages_valid_iff {check : Stage → Option Defect} {stages : List Stage} :
    (judgeStages check stages).value = .valid ↔ ∀ stage ∈ stages, check stage = none := by
  induction stages with
  | nil => simp [judgeStages, Logged.pure]
  | cons stage rest ih =>
      cases hcheck : check stage with
      | none => simp [judgeStages, hcheck, ih]
      | some defect => simp [judgeStages, hcheck, Verdict.ofDefect?]

/-- An interface is accepted exactly when none of the five checks finds anything. -/
theorem judge_valid_iff {iface : Interface} {terms : Terms} :
    (judge iface terms).value = .valid ↔ ∀ stage, Check.run iface terms stage = none := by
  rw [judge, judgeStages_valid_iff]
  constructor
  · intro hall stage
    exact hall stage (by cases stage <;> decide)
  · intro hall stage _
    exact hall stage

/-- The name of a policy stands for the policy. -/
theorem Policy.resolve_name (policy : Policy) : Policy.resolve policy.name = .ok policy := by
  rw [Policy.resolve, Policy.ofName?_name]

/-- A host that is known is found under its version. -/
theorem Host.resolve_cosmwasm1 : Host.resolve Host.cosmwasm1.version = .ok Host.cosmwasm1 := by
  decide

/-- A request whose names are known has a verdict: the one on its terms. -/
theorem assess_of_known (iface : Interface) {request : Request} {host : Host}
    {policy : Policy} (hhost : Host.resolve request.hostVersion = .ok host)
    (hpolicy : Policy.resolve request.policyName = .ok policy) :
    assess iface request = (judge iface ⟨host, policy, request.granted⟩).mapValue .ok := by
  have hterms : request.terms = .ok ⟨host, policy, request.granted⟩ := by
    simp [Request.terms, hhost, hpolicy, bind, Except.bind, pure, Except.pure]
  rw [assess, hterms]

end ContractAdmission
