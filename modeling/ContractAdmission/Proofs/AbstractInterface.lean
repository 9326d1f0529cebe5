import ContractAdmission.Admission
import Mathlib.Data.List.Sort

/-!
# The abstract interface

A verdict looks at much less than an interface lists.  Of the exports it takes the names,
in no order, and the number of memories; of the imports it takes the set of qualified
names; of the available capabilities it takes the set.  Interfaces that agree in this
have the same outcome, down to the wording of the reason and the records of the log.

* `Interface.Agrees` — what two interfaces have to share.
* `Check.run_eq_of_agrees` — each of the five checks finds the same defect in both.
* `assess_eq_of_agrees` — so do they all together, whatever is asked for.

The wording is where an order could slip in.  Missing exports and imports are named in
the order of the host's table, missing capabilities in increasing order, and a marker is
named only where there is one; `Check.run_eq_of_agrees` compares the defects with the
data that their reports show.
-/

namespace ContractAdmission

/-- Two capability sets with the same members are the same. -/
theorem CapabilitySet.eq_of_mem_iff {first second : CapabilitySet}
    (h : ∀ name, name ∈ first ↔ name ∈ second) : first = second := by
  obtain ⟨names, increasing⟩ := first
  obtain ⟨others, increasing'⟩ := second
  have hlists : names = others := increasing.eq_of_mem_iff increasing' h
  subst hlists
  rfl

/-- The set of the names in a list depends on its members alone. -/
theorem CapabilitySet.ofList_eq_of_mem_iff {names others : List String}
    (h : ∀ name, name ∈ names ↔ name ∈ others) : ofList names = ofList others := by
  refine eq_of_mem_iff fun name => ?_
  rw [mem_ofList, mem_ofList, h]

/-- Two interfaces with the same export names, each as often, the same number of exported
memories, and the same qualified names of imports. -/
structure Interface.Agrees (first second : Interface) : Prop where
  exportNames : first.exportNames.Perm second.exportNames
  memories : (first.exportsOfKind ExternKind.memory.label).length =
    (second.exportsOfKind ExternKind.memory.label).length
  qualifiedNames : ∀ name, name ∈ first.qualifiedNames ↔ name ∈ second.qualifiedNames

/-- Interfaces with the same entries in another order agree. -/
theorem Interface.agrees_of_perm {first second : Interface}
    (hexports : first.exports.Perm second.exports)
    (himports : first.imports.Perm second.imports) : first.Agrees second where
  exportNames := hexports.map _
  memories := (hexports.filter _).length_eq
  qualifiedNames _ := (himports.map _).mem_iff

/-- A policy requires the same of interfaces that agree. -/
theorem Policy.required_eq_of_agrees {first second : Interface} (h : first.Agrees second)
    (policy : Policy) : policy.required first = policy.required second := by
  cases policy with
  | unrestricted => rfl
  | markerExports =>
      exact CapabilitySet.ofList_eq_of_mem_iff fun name =>
        (h.exportNames.filterMap markedCapability?).mem_iff

/-- A list as long as one with two items or more has two items or more. -/
theorem exists_cons_cons_of_length {α β : Type} {entry next : α} {rest : List α}
    {others : List β} (h : (entry :: next :: rest).length = others.length) :
    ∃ other another more, others = other :: another :: more := by
  rcases others with _ | ⟨other, _ | ⟨another, more⟩⟩
  · simp at h
  · simp at h
  · exact ⟨other, another, more, rfl⟩

namespace Check

variable {first second : Interface}

/-- The names that are missing, and their order, depend only on which names are there. -/
theorem missing_eq_of_mem_iff (required : List String) {present others : List String}
    (h : ∀ name, name ∈ present ↔ name ∈ others) :
    missing required present = missing required others := by
  refine List.filter_congr fun name _ => ?_
  simp only [h]

/-- The check of memories counts them, and does not look at which exports they are. -/
theorem memories_eq_of_agrees (h : first.Agrees second) : memories first = memories second := by
  have hcount := h.memories
  -- The three cases of the check are no entry, one entry, and two entries or more.
  unfold memories
  cases hfirst : first.exportsOfKind ExternKind.memory.label with
  | nil =>
      rw [hfirst] at hcount
      rw [List.length_eq_zero_iff.1 hcount.symm]
  | cons entry rest =>
      rw [hfirst] at hcount
      cases rest with
      | nil =>
          obtain ⟨other, hother⟩ := List.length_eq_one_iff.1 hcount.symm
          rw [hother]
      | cons next rest =>
          obtain ⟨other, another, others, hothers⟩ := exists_cons_cons_of_length hcount
          rw [hothers]

/-- The check of markers looks at a marker only where there is no other. -/
theorem interfaceVersion_eq_of_agrees (h : first.Agrees second) (host : Host) :
    interfaceVersion first host = interfaceVersion second host := by
  have hmarkers : (markers first).Perm (markers second) := h.exportNames.filter _
  unfold interfaceVersion
  -- A marker is named only where it is alone, and then it is alone in the other list too.
  cases hfirst : markers first with
  | nil =>
      rw [hfirst] at hmarkers
      rw [hmarkers.symm.eq_nil]
  | cons marker rest =>
      rw [hfirst] at hmarkers
      cases rest with
      | nil => rw [hmarkers.symm.eq_singleton]
      | cons next rest =>
          obtain ⟨other, another, others, hothers⟩ :=
            exists_cons_cons_of_length hmarkers.length_eq
          rw [hothers]

/-- The check of exports looks at which names are there. -/
theorem exports_eq_of_agrees (h : first.Agrees second) (host : Host) :
    exports first host = exports second host := by
  rw [exports, exports,
    missing_eq_of_mem_iff host.requiredExports fun name => h.exportNames.mem_iff]

/-- The check of imports looks at which qualified names are there. -/
theorem imports_eq_of_agrees (h : first.Agrees second) (host : Host) :
    imports first host = imports second host := by
  rw [imports, imports, missing_eq_of_mem_iff host.requiredImports h.qualifiedNames]

/-- The check of capabilities looks at what is required. -/
theorem capabilities_eq_of_agrees (h : first.Agrees second) (granted : CapabilitySet)
    (policy : Policy) :
    capabilities first granted policy = capabilities second granted policy := by
  rw [capabilities, capabilities, policy.required_eq_of_agrees h]

/-- Every check finds the same in interfaces that agree. -/
theorem run_eq_of_agrees (h : first.Agrees second) (terms : Terms) :
    run first terms = run second terms := by
  funext stage
  cases stage with
  | memories => exact memories_eq_of_agrees h
  | interfaceVersion => exact interfaceVersion_eq_of_agrees h terms.host
  | exports => exact exports_eq_of_agrees h terms.host
  | imports => exact imports_eq_of_agrees h terms.host
  | capabilities => exact capabilities_eq_of_agrees h terms.granted terms.policy

end Check

/-- **The outcome depends on the abstract interface only.**  Interfaces that agree, held
against the same capabilities in any order and with any repetitions, have the same
verdict with the same reason, or the same error, and the same log, whatever host version
and policy are asked for. -/
theorem assess_eq_of_agrees {first second : Interface} (h : first.Agrees second)
    {available others : List String} (hsame : ∀ name, name ∈ available ↔ name ∈ others)
    (hostVersion policyName : String) :
    assess first { granted := .ofList available, hostVersion, policyName } =
      assess second { granted := .ofList others, hostVersion, policyName } := by
  rw [CapabilitySet.ofList_eq_of_mem_iff hsame]
  unfold assess
  cases Request.terms { granted := .ofList others, hostVersion, policyName } with
  | error error => rfl
  | ok terms => simp only [judge, Check.run_eq_of_agrees h terms]

/-- The export that is the memory, the order of all entries, the kinds and the number of
the imports, and the order and number of the capabilities make no difference. -/
theorem assess_eq_of_agrees_relabelled :
    let first : Interface :=
      ⟨[⟨"memory", "memory"⟩, ⟨"interface_version_9", "function"⟩, ⟨"allocate", "global"⟩],
        [⟨"env", "abort", "function"⟩, ⟨"env", "debug", "function"⟩]⟩
    let second : Interface :=
      ⟨[⟨"allocate", "memory"⟩, ⟨"memory", "table"⟩, ⟨"interface_version_9", "function"⟩],
        [⟨"env", "debug", "global"⟩, ⟨"env", "abort", "table"⟩, ⟨"env", "debug", "function"⟩]⟩
    first.Agrees second ∧
      (∀ name, name ∈ ["staking", "iterator"] ↔ name ∈ ["iterator", "staking", "iterator"]) ∧
      assess first { granted := .ofList ["staking", "iterator"] } =
        assess second { granted := .ofList ["iterator", "staking", "iterator"] } ∧
      (assess second { granted := .ofList ["iterator", "staking", "iterator"] }).value =
        .ok (.invalid .interfaceVersion
          ("unknown interface_version_* marker: \"interface_version_9\". Versions supported " ++
            "by VM cosmwasm-1: \"interface_version_7\", \"interface_version_8\".")) := by
  intro first second
  have hnames : first.exportNames.Perm second.exportNames := by decide
  have hagrees : first.Agrees second := by
    refine ⟨hnames, rfl, fun name => ?_⟩
    simp [first, second, Interface.qualifiedNames, Import.qualifiedName]
    tauto
  have hsame : ∀ name, name ∈ ["staking", "iterator"] ↔
      name ∈ ["iterator", "staking", "iterator"] := by
    intro name
    simp
    tauto
  exact ⟨hagrees, hsame, assess_eq_of_agrees hagrees hsame _ _, by decide +kernel⟩

end ContractAdmission
