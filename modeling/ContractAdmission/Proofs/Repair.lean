import ContractAdmission.Proofs.Additions
import ContractAdmission.Proofs.Admissible
import ContractAdmission.Proofs.NamedRepairs
import Mathlib.Data.List.Infix
import Mathlib.Logic.Function.Iterate

/-!
# Repair

Which contracts can be repaired by adding to them, and that following the verdicts repairs
them.  A defect that counts too much, or that has found an interface version which the host
does not speak, stays whatever is added.  Every other defect says what to add.

* `Session.repairs` — what a verdict says to add, read from its stage and its reason, and
  `Session.repaired` — the session after that.
* `Interface.Repairable` — the contracts without a defect that stays.
* `Session.Mendable.repairs_eq` — what is read from a verdict is what the defect asks for.
* `Session.passes_of_repair` — a repair clears the stage that failed and reopens none before it.
* `repairable_iff_extension_valid` — a contract is repairable exactly when something can be
  added that makes it valid, and then at most five repairs do.

No repair after the second adds an export that an earlier check counts: the names that are
missing come from the table of the host.
-/

namespace ContractAdmission

/-- The import that goes by a qualified name, which is split at its first full stop. -/
def Import.ofQualified (qualified kind : String) : Import where
  moduleName := String.ofList (qualified.toList.takeWhile (· ≠ '.'))
  name := String.ofList ((qualified.toList.dropWhile (· ≠ '.')).drop 1)
  kind

theorem Import.qualifiedName_ofQualified {qualified : String} (kind : String)
    (h : '.' ∈ qualified.toList) : (ofQualified qualified kind).qualifiedName = qualified := by
  obtain ⟨first, second, hsplit, hplain⟩ := List.eq_append_cons_of_mem h
  have hpass : ∀ c ∈ first, decide (c ≠ '.') = true := by
    intro c hc
    simpa using fun hdot : c = '.' => hplain (hdot ▸ hc)
  have htake : qualified.toList.takeWhile (· ≠ '.') = first := by
    rw [hsplit, List.takeWhile_append_of_pos hpass]
    simp
  have hdrop : qualified.toList.dropWhile (· ≠ '.') = '.' :: second := by
    rw [hsplit, List.dropWhile_append_of_pos hpass]
    simp
  rw [← String.toList_inj, ofQualified, qualifiedName, htake, hdrop, hsplit]
  simp

/-- What a defect asks for.  Nothing that is added takes the other defects away. -/
def Defect.repair : Defect → List Edit
  | .noMemory => [.addExport ⟨"memory", "memory"⟩]
  | .noMarker => [.addExport ⟨"interface_version_8", "function"⟩]
  | .missingExports missing _ => missing.map fun name => .addExport ⟨name, "function"⟩
  | .missingImports missing _ => missing.map fun name => .addImport (.ofQualified name "function")
  | .missingCapabilities missing => missing.map .grant
  | .severalMemories | .severalMarkers | .unknownMarker .. => []

namespace Session

/-- The capabilities that a session requires and that are not granted, in increasing order. -/
def ungranted (session : Session) : List String :=
  match Policy.resolve session.policyName with
  | .ok policy => ((policy.required session.iface).diff (.ofList session.granted)).toList
  | .error _ => []

/-- Edits that a reason asks for when it is the expected one. -/
def whenReason (expected : String) (edits : List Edit) (reason : String) : List Edit :=
  if reason = expected then edits else []

/-- An edit for each of the quoted names that a reason lists after a label. -/
def forEachQuoted (label : String) (edit : String → Edit) (reason : String) : List Edit :=
  match Report.quotedNames? label reason with
  | some names => names.map edit
  | none => []

/-- What a verdict says to add: its stage says of which kind that is, its reason what.  The name
of a capability can have a comma in it, so the capabilities are not read from the reason, which
is held against the list of those that are not granted. -/
def repairs (session : Session) : Stage → String → List Edit
  | .memories => whenReason "missing memory section" [.addExport ⟨"memory", "memory"⟩]
  | .interfaceVersion =>
      whenReason "missing interface_version_* marker export"
        [.addExport ⟨"interface_version_8", "function"⟩]
  | .exports =>
      forEachQuoted "missing required export: " fun name => .addExport ⟨name, "function"⟩
  | .imports =>
      forEachQuoted "missing required import: " fun name =>
        .addImport (.ofQualified name "function")
  | .capabilities =>
      whenReason ("missing capability: " ++ ", ".intercalate session.ungranted)
        (session.ungranted.map .grant)

/-- The session after the repair that its verdict names.  Where it is valid it stays. -/
def repaired (session : Session) : Session :=
  match session.verdict with
  | .ok (.invalid stage reason) => session.after (session.repairs stage reason)
  | _ => session

end Session

/-- An interface with one memory at most, and one interface version at most, which the first
CosmWasm host speaks. -/
structure Interface.Repairable (iface : Interface) : Prop where
  oneMemory : iface.exports.countP (fun entry => entry.kind = "memory") ≤ 1
  oneMarker : iface.exports.countP Export.isMarker ≤ 1
  markerSpoken : ∀ entry ∈ iface.exports, entry.isMarker = true →
    entry.name = "interface_version_7" ∨ entry.name = "interface_version_8"

section Append

variable (iface : Interface) (exports : List Export) (imports : List Import)

theorem Interface.exportsOfKind_append (kind : String) :
    (⟨iface.exports ++ exports, imports⟩ : Interface).exportsOfKind kind =
      iface.exportsOfKind kind ++ (⟨exports, []⟩ : Interface).exportsOfKind kind :=
  List.filter_append ..

theorem Check.markers_append :
    markers ⟨iface.exports ++ exports, imports⟩ = markers iface ++ markers ⟨exports, []⟩ := by
  simp only [markers, Interface.exportNames, List.map_append, List.filter_append]

end Append

/-- Repairability in terms of what the checks look at. -/
theorem Interface.repairable_iff {iface : Interface} :
    iface.Repairable ↔
      (iface.exportsOfKind ExternKind.memory.label).length ≤ 1 ∧
        (Check.markers iface).length ≤ 1 ∧
        ∀ marker ∈ Check.markers iface, marker ∈ Host.cosmwasm1.interfaceVersions := by
  have hmemories : (iface.exportsOfKind ExternKind.memory.label).length =
      iface.exports.countP (fun entry => entry.kind = "memory") := by
    rw [Interface.exportsOfKind, ← List.countP_eq_length_filter]
    rfl
  have hmarkers : (Check.markers iface).length = iface.exports.countP Export.isMarker := by
    rw [Check.markers_eq_map, List.length_map, List.countP_eq_length_filter]
  have hspoken : (∀ marker ∈ Check.markers iface, marker ∈ Host.cosmwasm1.interfaceVersions) ↔
      ∀ entry ∈ iface.exports, entry.isMarker = true →
        entry.name = "interface_version_7" ∨ entry.name = "interface_version_8" := by
    rw [Check.markers_eq_map, List.forall_mem_map]
    simp [Host.cosmwasm1]
  rw [hmemories, hmarkers, hspoken]
  exact ⟨fun h => ⟨h.oneMemory, h.oneMarker, h.markerSpoken⟩, fun h => ⟨h.1, h.2.1, h.2.2⟩⟩

theorem Interface.Repairable.of_grows {before after : Session} (h : before.Grows after)
    (hrepairable : before.iface.Repairable) : after.iface.Repairable := by
  rw [Interface.repairable_iff] at hrepairable ⊢
  rwa [h.memories, h.markers]

namespace Check

/-- A repairable interface can fail to have a memory, but not have several. -/
theorem noMemory_of_repairable {iface : Interface} {defect : Defect}
    (hrepairable : iface.Repairable) (h : memories iface = some defect) :
    defect = .noMemory ∧ iface.exportsOfKind ExternKind.memory.label = [] := by
  have hcount := (Interface.repairable_iff.1 hrepairable).1
  unfold memories at h
  cases hmemories : iface.exportsOfKind ExternKind.memory.label with
  | nil =>
      rw [hmemories] at h
      cases h
      exact ⟨rfl, rfl⟩
  | cons entry rest =>
      rw [hmemories] at h hcount
      cases rest with
      | nil => cases h
      | cons next rest => simp at hcount

/-- A repairable interface can fail to declare a version, but not declare several, nor one
that the host does not speak. -/
theorem noMarker_of_repairable {iface : Interface} {defect : Defect}
    (hrepairable : iface.Repairable) (h : interfaceVersion iface Host.cosmwasm1 = some defect) :
    defect = .noMarker ∧ markers iface = [] := by
  obtain ⟨-, hcount, hspoken⟩ := Interface.repairable_iff.1 hrepairable
  unfold interfaceVersion at h
  cases hmarkers : markers iface with
  | nil =>
      rw [hmarkers] at h
      cases h
      exact ⟨rfl, rfl⟩
  | cons marker rest =>
      rw [hmarkers] at h hcount hspoken
      cases rest with
      | nil =>
          dsimp only at h
          rw [if_pos (hspoken marker (by simp))] at h
          cases h
      | cons next rest => simp at hcount

end Check

/-- The names in the table of the first CosmWasm host are no markers. -/
theorem additive_of_requiredExports {name : String}
    (h : name ∈ Host.cosmwasm1.requiredExports) :
    (Edit.addExport ⟨name, "function"⟩).Additive := by
  revert name
  decide

theorem quote_not_mem_of_required {name : String}
    (h : name ∈ Host.cosmwasm1.requiredExports ∨ name ∈ Host.cosmwasm1.requiredImports) :
    '"' ∉ name.toList := by
  rw [← List.mem_append] at h
  revert name
  decide

theorem dot_mem_of_requiredImports {name : String}
    (h : name ∈ Host.cosmwasm1.requiredImports) : '.' ∈ name.toList := by
  revert name
  decide

/-- What holds of the stages before a stage and of that stage holds up to it. -/
theorem Stage.forall_le {P : Stage → Prop} {stage : Stage}
    (hbefore : ∀ other, other.index < stage.index → P other) (hstage : P stage) :
    ∀ other, other.index ≤ stage.index → P other := by
  intro other hle
  rcases Nat.lt_or_eq_of_le hle with hlt | heq
  · exact hbefore other hlt
  · rw [(List.idxOf_inj other.mem_all).1 heq]
    exact hstage

namespace Session

/-- The terms on which the first CosmWasm host judges a session under a policy. -/
def terms (session : Session) (policy : Policy) : Terms :=
  ⟨Host.cosmwasm1, policy, .ofList session.granted⟩

variable {session : Session} {policy : Policy} {defect : Defect}

/-- A memory under the name `memory` is no interface version, so it clears the first stage. -/
theorem passes_of_memory (hrepairable : session.iface.Repairable)
    (hnone : session.iface.exportsOfKind ExternKind.memory.label = []) :
    let next := session.apply (.addExport ⟨"memory", "memory"⟩)
    next.iface.Repairable ∧ Check.memories next.iface = none := by
  intro next
  have hmemories : next.iface.exportsOfKind ExternKind.memory.label =
      [⟨"memory", "memory"⟩] := by
    have happend := session.iface.exportsOfKind_append [⟨"memory", "memory"⟩]
      session.iface.imports ExternKind.memory.label
    rwa [hnone] at happend
  have hmarkers : Check.markers next.iface = Check.markers session.iface := by
    have happend := Check.markers_append session.iface [⟨"memory", "memory"⟩]
      session.iface.imports
    have hplain : Check.markers ⟨[⟨"memory", "memory"⟩], []⟩ = [] := by decide
    rwa [hplain, List.append_nil] at happend
  refine ⟨?_, ?_⟩
  · rw [Interface.repairable_iff] at hrepairable ⊢
    rw [hmemories, hmarkers]
    exact ⟨by simp, hrepairable.2⟩
  · rw [Check.memories_eq_none_iff, hmemories]
    rfl

/-- A spoken interface version is no memory, so it clears the second stage and leaves the
first as it is. -/
theorem passes_of_marker (hrepairable : session.iface.Repairable)
    (hnone : Check.markers session.iface = [])
    (hmemory : Check.memories session.iface = none) :
    let next := session.apply (.addExport ⟨"interface_version_8", "function"⟩)
    next.iface.Repairable ∧ Check.memories next.iface = none ∧
      Check.interfaceVersion next.iface Host.cosmwasm1 = none := by
  intro next
  have hmemories : next.iface.exportsOfKind ExternKind.memory.label =
      session.iface.exportsOfKind ExternKind.memory.label := by
    have happend := session.iface.exportsOfKind_append [⟨"interface_version_8", "function"⟩]
      session.iface.imports ExternKind.memory.label
    have hnoMemory : (⟨[⟨"interface_version_8", "function"⟩], []⟩ : Interface).exportsOfKind
        ExternKind.memory.label = [] := by decide
    rwa [hnoMemory, List.append_nil] at happend
  have hmarkers : Check.markers next.iface = ["interface_version_8"] := by
    have happend := Check.markers_append session.iface [⟨"interface_version_8", "function"⟩]
      session.iface.imports
    have hmarked : Check.markers ⟨[⟨"interface_version_8", "function"⟩], []⟩ =
        ["interface_version_8"] := by decide
    rwa [hnone, hmarked] at happend
  have hspoken : "interface_version_8" ∈ Host.cosmwasm1.interfaceVersions := by decide
  refine ⟨?_, ?_, ?_⟩
  · rw [Interface.repairable_iff] at hrepairable ⊢
    rw [hmemories, hmarkers]
    exact ⟨hrepairable.1, by simp, by simpa using hspoken⟩
  · rw [Check.memories_eq_none_iff, hmemories]
    exact Check.memories_eq_none_iff.1 hmemory
  · exact Check.interfaceVersion_eq_none_iff.2 ⟨_, hspoken, hmarkers⟩

/-- Functions under the missing names clear the stage of exports. -/
theorem passes_of_exports (session : Session) (host : Host) :
    let names := Check.missing host.requiredExports session.iface.exportNames
    Check.exports
      (session.after (names.map fun name => .addExport ⟨name, "function"⟩)).iface host =
        none := by
  intro names
  rw [after_of_appends (by simp [Edit.Appends])]
  refine (Check.exports_append_eq_none_iff _ _).2 fun name hname => ?_
  simpa [List.filterMap_map, Function.comp_def, Edit.newExport?] using hname

/-- Functions that are imported under the missing names clear the stage of imports, if the
names have a full stop at which they can be split. -/
theorem passes_of_imports (session : Session) {host : Host}
    (hdots : ∀ name ∈ host.requiredImports, '.' ∈ name.toList) :
    let names := Check.missing host.requiredImports session.iface.qualifiedNames
    Check.imports
      (session.after (names.map fun name => .addImport (.ofQualified name "function"))).iface
        host = none := by
  intro names
  rw [after_of_appends (by simp [Edit.Appends])]
  refine (Check.imports_append_eq_none_iff _ _).2 fun name hname => ?_
  have hadded : Import.ofQualified name "function" ∈
      (names.map fun name => .addImport (.ofQualified name "function")).filterMap
        Edit.newImport? :=
    List.mem_filterMap.2 ⟨_, List.mem_map_of_mem hname, rfl⟩
  exact List.mem_map.2 ⟨_, hadded,
    Import.qualifiedName_ofQualified _ (hdots name (List.mem_of_mem_filter hname))⟩

/-- Granting what is missing clears the stage of capabilities. -/
theorem passes_of_capabilities (session : Session) (policy : Policy) :
    let names := ((policy.required session.iface).diff (.ofList session.granted)).toList
    let next := session.after (names.map .grant)
    Check.capabilities next.iface (.ofList next.granted) policy = none := by
  intro names next
  have hnext : next = session.extend [] [] names := by
    simp only [next]
    rw [after_of_appends (by simp [Edit.Appends])]
    simp [List.filterMap_map, Function.comp_def, Edit.newExport?, Edit.newImport?,
      Edit.newCapability?]
  have hiface : next.iface = session.iface := by
    rw [hnext]
    simp [extend]
  have hgranted : next.granted = session.granted ++ names := by
    rw [hnext]
    rfl
  rw [Check.capabilities_eq_none_iff, hiface, hgranted]
  intro name hrequired
  rw [CapabilitySet.mem_ofList, List.mem_append]
  by_cases hthere : name ∈ session.granted
  · exact Or.inl hthere
  · have hlacking : name ∉ CapabilitySet.ofList session.granted := by
      simpa using hthere
    exact Or.inr (CapabilitySet.mem_diff.2 ⟨hrequired, hlacking⟩)

/-- A repair clears the stage that failed, reopens none before it, and leaves what is
repairable repairable. -/
theorem passes_of_repair (hrepairable : session.iface.Repairable)
    (hfound : diagnose session.iface (session.terms policy) = some defect) :
    let next := session.after defect.repair
    next.iface.Repairable ∧ ∀ stage, stage.index ≤ defect.stage.index →
      Check.run next.iface (next.terms policy) stage = none := by
  intro next
  obtain ⟨hfails, hbefore⟩ := diagnose_eq_some_iff.1 hfound
  -- From the third stage on a repair is additive, so it has only its own stage to clear.
  have hadditive : (∀ edit ∈ defect.repair, edit.Additive) →
      Check.run next.iface (next.terms policy) defect.stage = none →
        next.iface.Repairable ∧ ∀ stage, stage.index ≤ defect.stage.index →
          Check.run next.iface (next.terms policy) stage = none := by
    intro hedits hclears
    have hgrows : session.Grows next := session.grows_after hedits
    exact ⟨hrepairable.of_grows hgrows,
      Stage.forall_le (fun other hlt => hgrows.passes (hbefore other hlt)) hclears⟩
  have hreports := Check.reports_of_run hfails
  generalize hstage : defect.stage = stage at hreports hfails hbefore hadditive ⊢
  cases hreports with
  | noMemory =>
      obtain ⟨-, hnone⟩ := Check.noMemory_of_repairable hrepairable hfails
      obtain ⟨hkept, hclears⟩ := passes_of_memory hrepairable hnone
      refine ⟨hkept, Stage.forall_le ?_ hclears⟩
      intro other hlt
      exact absurd hlt (Nat.not_lt_zero _)
  | noMarker =>
      obtain ⟨-, hnone⟩ := Check.noMarker_of_repairable hrepairable hfails
      have hmemory : Check.memories session.iface = none := hbefore .memories (by decide)
      obtain ⟨hkept, hfirst, hclears⟩ := passes_of_marker hrepairable hnone hmemory
      refine ⟨hkept, Stage.forall_le ?_ hclears⟩
      intro other hlt
      cases other with
      | memories => exact hfirst
      | interfaceVersion => exact absurd hlt (by decide)
      | exports => exact absurd hlt (by decide)
      | imports => exact absurd hlt (by decide)
      | capabilities => exact absurd hlt (by decide)
  | missingExports =>
      refine hadditive ?_ (session.passes_of_exports Host.cosmwasm1)
      rw [Defect.repair, List.forall_mem_map]
      intro name hname
      have hmissing : name ∈
          Check.missing Host.cosmwasm1.requiredExports session.iface.exportNames := hname
      exact additive_of_requiredExports (List.mem_of_mem_filter hmissing)
  | missingImports =>
      refine hadditive ?_ (session.passes_of_imports fun name => dot_mem_of_requiredImports)
      rw [Defect.repair, List.forall_mem_map]
      intro name _
      trivial
  | missingCapabilities =>
      refine hadditive ?_ (session.passes_of_capabilities policy)
      rw [Defect.repair, List.forall_mem_map]
      intro name _
      trivial
  -- What counts too much, and what is not spoken, a repairable interface does not have.
  | severalMemories => cases (Check.noMemory_of_repairable hrepairable hfails).1
  | severalMarkers => cases (Check.noMarker_of_repairable hrepairable hfails).1
  | unknownMarker marker hmarker => cases (Check.noMarker_of_repairable hrepairable hfails).1

theorem whenReason_self (reason : String) (edits : List Edit) :
    whenReason reason edits reason = edits :=
  if_pos rfl

theorem forEachQuoted_of_read {label reason : String} {names : List String}
    (h : Report.quotedNames? label reason = some names) (edit : String → Edit) :
    forEachQuoted label edit reason = names.map edit := by
  rw [forEachQuoted, h]

theorem appends_of_mem_whenReason {expected reason : String} {edits : List Edit}
    (h : ∀ edit ∈ edits, edit.Appends) {edit : Edit}
    (hmem : edit ∈ whenReason expected edits reason) : edit.Appends := by
  unfold whenReason at hmem
  split at hmem
  · exact h edit hmem
  · cases hmem

theorem appends_of_mem_forEachQuoted {label reason : String} {step : String → Edit}
    (h : ∀ name, (step name).Appends) {edit : Edit}
    (hmem : edit ∈ forEachQuoted label step reason) : edit.Appends := by
  unfold forEachQuoted at hmem
  split at hmem
  · obtain ⟨name, -, rfl⟩ := List.mem_map.1 hmem
    exact h name
  · cases hmem

/-- What a verdict says to add is appended. -/
theorem appends_of_mem_repairs {stage : Stage} {reason : String} {edit : Edit}
    (h : edit ∈ session.repairs stage reason) : edit.Appends := by
  cases stage with
  | memories => exact appends_of_mem_whenReason (by simp [Edit.Appends]) h
  | interfaceVersion => exact appends_of_mem_whenReason (by simp [Edit.Appends]) h
  | exports =>
      refine appends_of_mem_forEachQuoted (fun name => ?_) h
      trivial
  | imports =>
      refine appends_of_mem_forEachQuoted (fun name => ?_) h
      trivial
  | capabilities => exact appends_of_mem_whenReason (by simp [Edit.Appends]) h

theorem repaired_of_invalid {stage : Stage} {reason : String} {edits : List Edit}
    (h : session.verdict = .ok (.invalid stage reason))
    (hread : session.repairs stage reason = edits) : session.repaired = session.after edits := by
  rw [repaired, h, ← hread]

/-- A repair extends a session. -/
theorem exists_extend_repaired (session : Session) :
    ∃ exports imports capabilities,
      session.repaired = session.extend exports imports capabilities := by
  have hself : session = session.extend [] [] [] := by simp [extend]
  unfold repaired
  split
  · exact ⟨_, _, _, after_of_appends (fun _ => appends_of_mem_repairs) session⟩
  · exact ⟨[], [], [], hself⟩

/-- A session about the first CosmWasm host with an interface that can be repaired. -/
structure Mendable (session : Session) (policy : Policy) : Prop where
  names : session.Names Host.cosmwasm1 policy
  repairable : session.iface.Repairable

namespace Mendable

theorem verdict (h : session.Mendable policy) :
    session.verdict = .ok (.ofDefect? (diagnose session.iface (session.terms policy))) :=
  h.names.verdict

/-- A verdict that reports a defect says to add what the defect asks for. -/
theorem repairs_eq (h : session.Mendable policy)
    (hfound : diagnose session.iface (session.terms policy) = some defect) :
    session.repairs defect.stage defect.message = defect.repair := by
  obtain ⟨hfails, -⟩ := diagnose_eq_some_iff.1 hfound
  have hreports := Check.reports_of_run hfails
  generalize defect.stage = stage at hreports hfails ⊢
  cases hreports with
  | noMemory => exact whenReason_self "missing memory section" _
  | noMarker => exact whenReason_self "missing interface_version_* marker export" _
  | missingExports =>
      have hread := Report.quotedNames?_missing (Check.missing_of_exports hfails).1
        (fun name hname => quote_not_mem_of_required (.inl (List.mem_of_mem_filter hname)))
        "missing required export: " " Exports required by VM: " Host.cosmwasm1.requiredExports
      exact forEachQuoted_of_read hread _
  | missingImports =>
      have hread := Report.quotedNames?_missing (Check.missing_of_imports hfails).1
        (fun name hname => quote_not_mem_of_required (.inr (List.mem_of_mem_filter hname)))
        "missing required import: " " Imports required by VM: " Host.cosmwasm1.requiredImports
      exact forEachQuoted_of_read hread _
  | missingCapabilities =>
      have hungranted : session.ungranted =
          Check.lacking session.iface (session.terms policy) .capabilities := by
        rw [ungranted, h.names.policy]
        rfl
      rw [repairs, hungranted]
      exact whenReason_self _ _
  | severalMemories => cases (Check.noMemory_of_repairable h.repairable hfails).1
  | severalMarkers => cases (Check.noMarker_of_repairable h.repairable hfails).1
  | unknownMarker marker hmarker => cases (Check.noMarker_of_repairable h.repairable hfails).1

theorem repaired_of_none (h : session.Mendable policy)
    (hfound : diagnose session.iface (session.terms policy) = none) :
    session.repaired = session := by
  rw [Session.repaired, h.verdict, hfound]
  rfl

theorem repaired_of_some (h : session.Mendable policy)
    (hfound : diagnose session.iface (session.terms policy) = some defect) :
    session.repaired = session.after defect.repair := by
  have hinvalid : session.verdict = .ok (.invalid defect.stage defect.message) := by
    rw [h.verdict, hfound]
    rfl
  exact repaired_of_invalid hinvalid (h.repairs_eq hfound)

/-- What can be repaired can still be repaired after a repair. -/
theorem repaired (h : session.Mendable policy) : session.repaired.Mendable policy := by
  obtain ⟨exports, imports, capabilities, hextend⟩ := session.exists_extend_repaired
  refine ⟨hextend ▸ h.names.extend _ _ _, ?_⟩
  cases hfound : diagnose session.iface (session.terms policy) with
  | none =>
      rw [h.repaired_of_none hfound]
      exact h.repairable
  | some defect =>
      rw [h.repaired_of_some hfound]
      exact (passes_of_repair h.repairable hfound).1

/-- A repair leads past the stage that failed. -/
theorem index_lt_rank (h : session.Mendable policy)
    (hfound : diagnose session.iface (session.terms policy) = some defect) :
    let next := session.repaired
    defect.stage.index < (Verdict.ofDefect? (diagnose next.iface (next.terms policy))).rank := by
  intro next
  simp only [next]
  rw [h.repaired_of_some hfound, index_lt_rank_iff]
  exact (passes_of_repair h.repairable hfound).2

theorem iterate (h : session.Mendable policy) (count : Nat) :
    (Session.repaired^[count] session).Mendable policy := by
  induction count with
  | zero => exact h
  | succ count ih =>
      rw [Function.iterate_succ_apply']
      exact ih.repaired

theorem iterate_succ_of_some (h : session.Mendable policy) (count : Nat) (defect : Defect)
    (hfound : diagnose (Session.repaired^[count] session).iface
      ((Session.repaired^[count] session).terms policy) = some defect) :
    Session.repaired^[count + 1] session =
      (Session.repaired^[count] session).after defect.repair := by
  rw [Function.iterate_succ_apply', (h.iterate count).repaired_of_some hfound]

/-- After a number of repairs nothing is wrong, or as many stages pass. -/
theorem le_rank_iterate (h : session.Mendable policy) (count : Nat) :
    let last := Session.repaired^[count] session
    diagnose last.iface (last.terms policy) = none ∨
      count ≤ (Verdict.ofDefect? (diagnose last.iface (last.terms policy))).rank := by
  induction count with
  | zero => exact Or.inr (Nat.zero_le _)
  | succ count ih =>
      have hlast := h.iterate count
      rw [Function.iterate_succ_apply']
      generalize Session.repaired^[count] session = last at ih hlast ⊢
      dsimp only at ih ⊢
      cases hfound : diagnose last.iface (last.terms policy) with
      | none =>
          rw [hlast.repaired_of_none hfound]
          exact Or.inl hfound
      | some defect =>
          rw [hfound] at ih
          have hreached : count ≤ defect.stage.index := ih.resolve_left (by simp)
          exact Or.inr (Nat.lt_of_le_of_lt hreached (hlast.index_lt_rank hfound))

/-- There are five stages, so five repairs are enough. -/
theorem valid_after_five (h : session.Mendable policy) :
    (Session.repaired^[5] session).verdict = .ok .valid := by
  have hlast := h.iterate 5
  have hnone := (h.le_rank_iterate 5).elim id eq_none_of_rank
  rw [hlast.verdict, hnone]
  rfl

end Mendable

theorem exists_extend_iterate (session : Session) (count : Nat) :
    ∃ exports imports capabilities,
      Session.repaired^[count] session = session.extend exports imports capabilities := by
  induction count with
  | zero => exact ⟨[], [], [], by simp [extend]⟩
  | succ count ih =>
      obtain ⟨exports, imports, capabilities, hcount⟩ := ih
      obtain ⟨exports', imports', capabilities', hnext⟩ :=
        (Session.repaired^[count] session).exists_extend_repaired
      refine ⟨exports ++ exports', imports ++ imports', capabilities ++ capabilities', ?_⟩
      rw [Function.iterate_succ_apply', hnext, hcount]
      simp [extend]

/-- What can be added to until it is valid has no defect that stays. -/
theorem repairable_of_extend {exports : List Export} {imports : List Import}
    {capabilities : List String} (hnames : session.Names Host.cosmwasm1 policy)
    (hvalid : (session.extend exports imports capabilities).verdict = .ok .valid) :
    session.iface.Repairable := by
  have hnames' := hnames.extend exports imports capabilities
  rw [hnames'.verdict, Except.ok.injEq, Verdict.ofDefect?_eq_valid_iff,
    diagnose_eq_none_iff] at hvalid
  have hmemory := Check.memories_eq_none_iff.1 (hvalid .memories)
  obtain ⟨marker, hspoken, hmarker⟩ :=
    Check.interfaceVersion_eq_none_iff.1 (hvalid .interfaceVersion)
  -- What an interface has it still has after an extension.
  have hmemories := session.iface.exportsOfKind_append exports
    (session.iface.imports ++ imports) ExternKind.memory.label
  have hmarkers := Check.markers_append session.iface exports (session.iface.imports ++ imports)
  simp only [extend] at hmemory hmarker
  rw [hmemories, List.length_append] at hmemory
  rw [hmarkers] at hmarker
  have hfront : Check.markers session.iface <+: [marker] := ⟨_, hmarker⟩
  rw [Interface.repairable_iff]
  refine ⟨by omega, by simpa using hfront.length_le, ?_⟩
  intro other hother
  have hsame : other = marker := List.mem_singleton.1 (hfront.subset hother)
  exact hsame ▸ hspoken

end Session

/-- **Which contracts can be repaired by adding to them.**  Something can be added to an
interface and to the granted capabilities that makes it valid exactly when it has at most one
memory and at most one interface version, which is spoken.  Then every repair that a verdict
names leads to a later stage, and at most five of them lead to `valid`. -/
theorem repairable_iff_extension_valid (iface : Interface) (granted : List String)
    (policy : Policy) :
    let session : Session := ⟨iface, granted, "cosmwasm-1", policy.name⟩
    ((∃ exports imports capabilities,
      (session.extend exports imports capabilities).verdict = .ok .valid) ↔
        iface.Repairable) ∧
    (iface.Repairable →
      (∀ count stage reason,
        (Session.repaired^[count] session).verdict = .ok (.invalid stage reason) →
          ∃ next : Verdict,
            (Session.repaired^[count + 1] session).verdict = .ok next ∧
              stage.index < next.rank) ∧
      ∃ count ≤ 5, (Session.repaired^[count] session).verdict = .ok .valid) := by
  intro session
  have hnames : session.Names Host.cosmwasm1 policy :=
    ⟨Host.resolve_cosmwasm1, Policy.resolve_name policy⟩
  refine ⟨⟨?_, ?_⟩, ?_⟩
  · rintro ⟨exports, imports, capabilities, hvalid⟩
    exact Session.repairable_of_extend hnames hvalid
  · intro hrepairable
    obtain ⟨exports, imports, capabilities, hextend⟩ := session.exists_extend_iterate 5
    have hmendable : session.Mendable policy := ⟨hnames, hrepairable⟩
    exact ⟨exports, imports, capabilities, hextend ▸ hmendable.valid_after_five⟩
  · intro hrepairable
    have hmendable : session.Mendable policy := ⟨hnames, hrepairable⟩
    refine ⟨?_, 5, Nat.le_refl 5, hmendable.valid_after_five⟩
    intro count stage reason hinvalid
    have hlast := hmendable.iterate count
    rw [hlast.verdict, Except.ok.injEq, Verdict.ofDefect?_eq_invalid_iff] at hinvalid
    obtain ⟨defect, hfound, rfl, rfl⟩ := hinvalid
    rw [Function.iterate_succ_apply']
    exact ⟨_, hlast.repaired.verdict, hlast.index_lt_rank hfound⟩

/-- A session about an interface that has nothing but the demand for a capability. -/
def demandingSession : Session :=
  ⟨⟨[⟨"requires_staking", "function"⟩], []⟩, [], "cosmwasm-1", Policy.markerExports.name⟩

/-- It takes five repairs.  The first adds the memory, and the last grants what is demanded. -/
theorem repairable_iff_extension_valid_staking :
    demandingSession.iface.Repairable ∧
      (∃ exports imports capabilities,
        (demandingSession.extend exports imports capabilities).verdict = .ok .valid) ∧
      (∃ count ≤ 5, (Session.repaired^[count] demandingSession).verdict = .ok .valid) ∧
      demandingSession.verdict = .ok (.invalid .memories "missing memory section") ∧
      (Session.repaired^[4] demandingSession).verdict =
        .ok (.invalid .capabilities "missing capability: staking") := by
  have hrepairable : demandingSession.iface.Repairable := by
    rw [Interface.repairable_iff]
    decide
  obtain ⟨hextension, hloop⟩ :=
    repairable_iff_extension_valid demandingSession.iface [] .markerExports
  have hmemory : demandingSession.verdict =
      .ok (.invalid .memories "missing memory section") := by decide +kernel
  refine ⟨hrepairable, hextension.2 hrepairable, (hloop hrepairable).2, hmemory, ?_⟩
  have hmendable : demandingSession.Mendable .markerExports :=
    ⟨⟨Host.resolve_cosmwasm1, Policy.resolve_name .markerExports⟩, hrepairable⟩
  -- The sessions are evaluated one after the other, each from what was added to the last.
  have hfirst := hmendable.iterate_succ_of_some 0 .noMemory (by decide +kernel)
  have hsecond := hmendable.iterate_succ_of_some 1 .noMarker (by
    rw [hfirst]
    decide +kernel)
  have hthird := hmendable.iterate_succ_of_some 2
    (.missingExports Host.cosmwasm1.requiredExports Host.cosmwasm1.requiredExports) (by
      rw [hsecond, hfirst]
      decide +kernel)
  have hfourth := hmendable.iterate_succ_of_some 3
    (.missingImports Host.cosmwasm1.requiredImports Host.cosmwasm1.requiredImports) (by
      rw [hthird, hsecond, hfirst]
      decide +kernel)
  rw [hfourth, hthird, hsecond, hfirst]
  decide +kernel

end ContractAdmission
