import ContractAdmission.Proofs.AbstractInterface
import ContractAdmission.Proofs.Diagnosis
import Mathlib.Data.List.Chain

/-!
# Additions

What becomes of a verdict while an interface and the granted capabilities grow step by step.
A step is additive when no check can count it against a contract: it adds no memory, no
interface version and no requirement.  Such a step never sends a contract back to an earlier
stage, and where the contract fails at the same stage again, fewer names are missing.

* `Session.Grows` — what a step leaves alone, and what it can only add to.  An additive step
  grows a session, and so does a step that removes, read backwards.
* `Session.rankLe_of_grows`, `Session.missesNoMore_of_grows` — one step.
* `isChain_states` — from one step to a run.
* `additions_advance` — runs of any length, in either direction, and in any order.

Exports are never removed here: leaving out a second memory can repair a contract.
-/

namespace ContractAdmission

/-- The more names there are, the fewer are missing. -/
theorem Check.missing_sublist (required : List String) {present more : List String}
    (h : present ⊆ more) : (missing required more).Sublist (missing required present) := by
  refine List.monotone_filter_right _ fun name hmissing => ?_
  simp only [decide_eq_true_eq] at hmissing ⊢
  exact fun hmem => hmissing (h hmem)

namespace Edit

/-- Edits that append something. -/
def Appends : Edit → Prop
  | .addExport _ | .addImport _ | .grant _ => True
  | _ => False

/-- Edits that append something which no check can object to. -/
def Additive : Edit → Prop
  | .addExport entry =>
      entry.kind ≠ "memory" ∧
        ¬ "interface_version_".toList <+: entry.name.toList ∧
        ¬ "requires_".toList <+: entry.name.toList
  | .addImport _ | .grant _ => True
  | _ => False

/-- Edits that remove imports, or a capability. -/
def Subtractive : Edit → Prop
  | .dropImports _ _ | .revoke _ => True
  | _ => False

instance : DecidablePred Additive
  | .addExport entry =>
      inferInstanceAs (Decidable (entry.kind ≠ "memory" ∧
        ¬ "interface_version_".toList <+: entry.name.toList ∧
        ¬ "requires_".toList <+: entry.name.toList))
  | .addImport _ | .grant _ => .isTrue trivial
  | .dropExports _ | .dropImports _ _ | .revoke _ | .setPolicy _ | .setHostVersion _ | .keep =>
      .isFalse id

/-- The export that an edit appends, if it appends one. -/
def newExport? : Edit → Option Export
  | .addExport entry => some entry
  | _ => none

/-- The import that an edit appends, if it appends one. -/
def newImport? : Edit → Option Import
  | .addImport entry => some entry
  | _ => none

/-- The capability that an edit grants, if it grants one. -/
def newCapability? : Edit → Option String
  | .grant capability => some capability
  | _ => none

theorem Additive.appends {edit : Edit} (h : edit.Additive) : edit.Appends := by
  cases edit <;> trivial

end Edit

namespace Session

/-- The session after a list of edits. -/
def after (session : Session) (edits : List Edit) : Session :=
  edits.foldl apply session

/-- The sessions that a list of edits goes through, from the first to the last. -/
def states (session : Session) : List Edit → List Session
  | [] => [session]
  | edit :: rest => session :: (session.apply edit).states rest

/-- The verdicts of a run are those of the sessions that it goes through. -/
theorem map_verdict_states (session : Session) (edits : List Edit) :
    (session.states edits).map verdict = session.verdict :: session.run edits := by
  induction edits generalizing session with
  | nil => rfl
  | cons edit rest ih => rw [states, List.map_cons, ih, run]

theorem head?_states (session : Session) (edits : List Edit) :
    (session.states edits).head? = some session := by
  cases edits <;> rfl

/-- A relation between a session and the next one holds all along a run, if it holds for one
step from every session with some property that steps keep. -/
theorem isChain_states {P : Edit → Prop} {I : Session → Prop} {R : Session → Session → Prop}
    (hkeeps : ∀ session edit, I session → P edit → I (session.apply edit))
    (hstep : ∀ session edit, I session → P edit → R session (session.apply edit))
    {session : Session} (hI : I session) {edits : List Edit} (hP : ∀ edit ∈ edits, P edit) :
    (session.states edits).IsChain R := by
  induction edits generalizing session with
  | nil => exact List.isChain_singleton session
  | cons edit rest ih =>
      have hfirst : P edit := hP edit (by simp)
      have hrest : ∀ later ∈ rest, P later := fun later hlater =>
        hP later (List.mem_cons_of_mem edit hlater)
      rw [states, List.isChain_cons]
      refine ⟨?_, ih (hkeeps session edit hI hfirst) hrest⟩
      intro next hnext
      rw [head?_states, Option.mem_some] at hnext
      exact hnext ▸ hstep session edit hI hfirst

/-- A session with more behind what it has. -/
def extend (session : Session) (exports : List Export) (imports : List Import)
    (capabilities : List String) : Session :=
  { session with
    iface := ⟨session.iface.exports ++ exports, session.iface.imports ++ imports⟩
    granted := session.granted ++ capabilities }

/-- Edits that append extend a session by what they append. -/
theorem after_of_appends {edits : List Edit} (h : ∀ edit ∈ edits, edit.Appends)
    (session : Session) :
    session.after edits = session.extend (edits.filterMap Edit.newExport?)
      (edits.filterMap Edit.newImport?) (edits.filterMap Edit.newCapability?) := by
  induction edits generalizing session with
  | nil => simp [after, extend]
  | cons edit rest ih =>
      have hfirst : edit.Appends := h edit (by simp)
      have hrest : ∀ later ∈ rest, later.Appends := fun later hlater =>
        h later (List.mem_cons_of_mem edit hlater)
      have hafter : session.after (edit :: rest) = (session.apply edit).after rest := rfl
      rw [hafter, ih hrest]
      cases edit with
      | addExport entry =>
          simp [apply, extend, List.filterMap_cons, Edit.newExport?, Edit.newImport?,
            Edit.newCapability?]
      | addImport entry =>
          simp [apply, extend, List.filterMap_cons, Edit.newExport?, Edit.newImport?,
            Edit.newCapability?]
      | grant capability =>
          simp [apply, extend, List.filterMap_cons, Edit.newExport?, Edit.newImport?,
            Edit.newCapability?]
      | dropExports _ => exact hfirst.elim
      | dropImports _ _ => exact hfirst.elim
      | revoke _ => exact hfirst.elim
      | setPolicy _ => exact hfirst.elim
      | setHostVersion _ => exact hfirst.elim
      | keep => exact hfirst.elim

/-- The host and the policy that a session names. -/
structure Names (session : Session) (host : Host) (policy : Policy) : Prop where
  host : Host.resolve session.hostVersion = .ok host
  policy : Policy.resolve session.policyName = .ok policy

theorem Names.extend {session : Session} {host : Host} {policy : Policy}
    (h : session.Names host policy) (exports : List Export) (imports : List Import)
    (capabilities : List String) :
    (session.extend exports imports capabilities).Names host policy :=
  ⟨h.host, h.policy⟩

theorem Names.diagnosis {session : Session} {host : Host} {policy : Policy}
    (h : session.Names host policy) :
    session.diagnosis =
      .ok (diagnose session.iface ⟨host, policy, .ofList session.granted⟩) :=
  diagnosis_of_known h.host h.policy

theorem Names.verdict {session : Session} {host : Host} {policy : Policy}
    (h : session.Names host policy) :
    session.verdict =
      .ok (.ofDefect? (diagnose session.iface ⟨host, policy, .ofList session.granted⟩)) := by
  rw [verdict_eq_map, h.diagnosis]
  rfl

/-- A session that has what another has, and that no check can hold more against: the same
memories, the same interface versions and the same requirements. -/
structure Grows (before after : Session) : Prop where
  hostVersion : after.hostVersion = before.hostVersion
  policyName : after.policyName = before.policyName
  memories : after.iface.exportsOfKind ExternKind.memory.label =
    before.iface.exportsOfKind ExternKind.memory.label
  markers : Check.markers after.iface = Check.markers before.iface
  marked : after.iface.exportNames.filterMap Policy.markedCapability? =
    before.iface.exportNames.filterMap Policy.markedCapability?
  exportNames : before.iface.exportNames ⊆ after.iface.exportNames
  qualifiedNames : before.iface.qualifiedNames ⊆ after.iface.qualifiedNames
  granted : before.granted ⊆ after.granted

theorem Grows.names {before after : Session} {host : Host} {policy : Policy}
    (h : before.Grows after) : after.Names host policy ↔ before.Names host policy := by
  constructor
  · intro hnames
    exact ⟨h.hostVersion ▸ hnames.host, h.policyName ▸ hnames.policy⟩
  · intro hnames
    exact ⟨h.hostVersion.symm ▸ hnames.host, h.policyName.symm ▸ hnames.policy⟩

theorem Grows.refl (session : Session) : session.Grows session :=
  ⟨rfl, rfl, rfl, rfl, rfl, List.Subset.refl _, List.Subset.refl _, List.Subset.refl _⟩

theorem Grows.trans {first second third : Session} (h : first.Grows second)
    (h' : second.Grows third) : first.Grows third where
  hostVersion := h'.hostVersion.trans h.hostVersion
  policyName := h'.policyName.trans h.policyName
  memories := h'.memories.trans h.memories
  markers := h'.markers.trans h.markers
  marked := h'.marked.trans h.marked
  exportNames := List.Subset.trans h.exportNames h'.exportNames
  qualifiedNames := List.Subset.trans h.qualifiedNames h'.qualifiedNames
  granted := List.Subset.trans h.granted h'.granted

/-- An additive step grows a session. -/
theorem grows_of_additive (session : Session) {edit : Edit} (h : edit.Additive) :
    session.Grows (session.apply edit) := by
  cases edit with
  | addExport entry =>
      obtain ⟨hkind, hversion, hrequires⟩ := h
      have hmarker : Policy.markedCapability? entry.name = none := by
        have hprefix : ¬ Policy.markerPrefix.toList.isPrefixOf entry.name.toList = true := by
          rw [List.isPrefixOf_iff_prefix]
          exact hrequires
        rw [Policy.markedCapability?, if_neg hprefix]
      have hspoken : ¬ Host.markerPrefix.toList.isPrefixOf entry.name.toList = true := by
        rw [List.isPrefixOf_iff_prefix]
        exact hversion
      refine ⟨rfl, rfl, ?_, ?_, ?_, ?_, ?_, ?_⟩
      · simp [apply, Interface.exportsOfKind, ExternKind.label, hkind]
      · simp [apply, Check.markers, Interface.exportNames, hspoken]
      · simp [apply, Interface.exportNames, hmarker]
      · simp [apply, Interface.exportNames]
      · exact List.Subset.refl _
      · exact List.Subset.refl _
  | addImport entry =>
      refine ⟨rfl, rfl, rfl, rfl, rfl, List.Subset.refl _, ?_, List.Subset.refl _⟩
      simp [apply, Interface.qualifiedNames]
  | grant capability =>
      refine ⟨rfl, rfl, rfl, rfl, rfl, List.Subset.refl _, List.Subset.refl _, ?_⟩
      simp [apply]
  | dropExports _ => exact h.elim
  | dropImports _ _ => exact h.elim
  | revoke _ => exact h.elim
  | setPolicy _ => exact h.elim
  | setHostVersion _ => exact h.elim
  | keep => exact h.elim

/-- Additive steps grow a session. -/
theorem grows_after (session : Session) {edits : List Edit}
    (h : ∀ edit ∈ edits, edit.Additive) : session.Grows (session.after edits) := by
  induction edits generalizing session with
  | nil => exact Grows.refl session
  | cons edit rest ih =>
      have hfirst := session.grows_of_additive (h edit (by simp))
      have hrest := ih (session.apply edit) fun later hlater =>
        h later (List.mem_cons_of_mem edit hlater)
      exact hfirst.trans hrest

/-- A step that removes imports or a capability grows a session when it is read backwards. -/
theorem grows_of_subtractive (session : Session) {edit : Edit} (h : edit.Subtractive) :
    (session.apply edit).Grows session := by
  cases edit with
  | dropImports moduleName name =>
      refine ⟨rfl, rfl, rfl, rfl, rfl, List.Subset.refl _, ?_, List.Subset.refl _⟩
      exact List.map_subset _ (List.filter_subset_self _)
  | revoke capability =>
      refine ⟨rfl, rfl, rfl, rfl, rfl, List.Subset.refl _, List.Subset.refl _, ?_⟩
      exact List.filter_subset_self _
  | addExport _ => exact h.elim
  | addImport _ => exact h.elim
  | grant _ => exact h.elim
  | dropExports _ => exact h.elim
  | setPolicy _ => exact h.elim
  | setHostVersion _ => exact h.elim
  | keep => exact h.elim

theorem Grows.required {before after : Session} (h : before.Grows after) (policy : Policy) :
    policy.required after.iface = policy.required before.iface := by
  cases policy with
  | unrestricted => rfl
  | markerExports => simp only [Policy.required, h.marked]

section Step

variable {before after : Session} {host : Host} {policy : Policy}

/-- A session that grows keeps passing every stage that it passes. -/
theorem Grows.passes (h : before.Grows after) {stage : Stage}
    (hpass : Check.run before.iface ⟨host, policy, .ofList before.granted⟩ stage = none) :
    Check.run after.iface ⟨host, policy, .ofList after.granted⟩ stage = none := by
  cases stage with
  | memories => simpa only [Check.run, Check.memories, h.memories] using hpass
  | interfaceVersion =>
      simpa only [Check.run, Check.interfaceVersion, h.markers] using hpass
  | exports =>
      have hthere := Check.exports_eq_none_iff.1 hpass
      exact Check.exports_eq_none_iff.2 fun name hname => h.exportNames (hthere name hname)
  | imports =>
      have hthere := Check.imports_eq_none_iff.1 hpass
      exact Check.imports_eq_none_iff.2 fun name hname => h.qualifiedNames (hthere name hname)
  | capabilities =>
      have hgranted := Check.capabilities_eq_none_iff.1 hpass
      refine Check.capabilities_eq_none_iff.2 fun name hname => ?_
      have hrequired : name ∈ policy.required before.iface := h.required policy ▸ hname
      have hmem := CapabilitySet.mem_ofList.1 (hgranted name hrequired)
      exact CapabilitySet.mem_ofList.2 (h.granted hmem)

/-- A session that grows lacks nothing that it did not lack before, in the same order. -/
theorem Grows.lacking_sublist (h : before.Grows after) (stage : Stage) :
    (Check.lacking after.iface ⟨host, policy, .ofList after.granted⟩ stage).Sublist
      (Check.lacking before.iface ⟨host, policy, .ofList before.granted⟩ stage) := by
  cases stage with
  | memories => exact List.Sublist.refl _
  | interfaceVersion => exact List.Sublist.refl _
  | exports => exact Check.missing_sublist _ h.exportNames
  | imports => exact Check.missing_sublist _ h.qualifiedNames
  | capabilities =>
      have hrequired := h.required policy
      simp only [Check.lacking, CapabilitySet.diff, hrequired]
      refine List.monotone_filter_right _ fun name hlacking => ?_
      simp only [decide_eq_true_eq, CapabilitySet.mem_ofList] at hlacking ⊢
      exact fun hmem => hlacking (h.granted hmem)

end Step

/-- The verdict on one session comes no earlier than that on another. -/
def RankLe (lower higher : Session) : Prop :=
  ∃ verdict verdict', lower.verdict = .ok verdict ∧ higher.verdict = .ok verdict' ∧
    verdict.rank ≤ verdict'.rank

/-- Where two sessions fail at the same stage, the reason for the second names what is
missing in the first, in the same order, and perhaps less. -/
def MissesNoMore (before after : Session) : Prop :=
  ∀ stage reason reason', before.verdict = .ok (.invalid stage reason) →
    after.verdict = .ok (.invalid stage reason') →
      ∃ defect defect', before.diagnosis = .ok (some defect) ∧ reason = defect.message ∧
        after.diagnosis = .ok (some defect') ∧ reason' = defect'.message ∧
        defect'.missing.Sublist defect.missing

instance : Trans RankLe RankLe RankLe where
  trans := by
    rintro first second third ⟨verdict, middle, hfirst, hsecond, hle⟩
      ⟨middle', verdict', hsecond', hthird, hle'⟩
    rw [hsecond] at hsecond'
    cases hsecond'
    exact ⟨verdict, verdict', hfirst, hthird, Nat.le_trans hle hle'⟩

/-- No verdict comes later than `valid`. -/
theorem RankLe.valid {lower higher : Session} (h : lower.RankLe higher)
    (hvalid : lower.verdict = .ok .valid) : higher.verdict = .ok .valid := by
  obtain ⟨verdict, verdict', hlower, hhigher, hle⟩ := h
  rw [hvalid] at hlower
  cases hlower
  cases verdict' with
  | valid => exact hhigher
  | invalid stage reason => exact absurd hle (Nat.not_le.2 stage.index_lt)

section Known

variable {before after : Session} {host : Host} {policy : Policy}

/-- A session that grows does not fail earlier. -/
theorem rankLe_of_grows (hnames : before.Names host policy) (h : before.Grows after) :
    before.RankLe after :=
  ⟨_, _, hnames.verdict, (h.names.2 hnames).verdict, rank_le_of_passes fun _ => h.passes⟩

/-- A session that grows and fails at the same stage again lacks no more than before. -/
theorem missesNoMore_of_grows (hnames : before.Names host policy) (h : before.Grows after) :
    before.MissesNoMore after := by
  intro stage reason reason' hbefore hafter
  have hnames' := h.names.2 hnames
  rw [hnames.verdict, Except.ok.injEq, Verdict.ofDefect?_eq_invalid_iff] at hbefore
  rw [hnames'.verdict, Except.ok.injEq, Verdict.ofDefect?_eq_invalid_iff] at hafter
  obtain ⟨defect, hfound, rfl, rfl⟩ := hbefore
  obtain ⟨defect', hfound', hstage, rfl⟩ := hafter
  refine ⟨defect, defect', ?_, rfl, ?_, rfl, ?_⟩
  · rw [hnames.diagnosis, hfound]
  · rw [hnames'.diagnosis, hfound']
  · have hmissing := Check.missing_of_run (diagnose_eq_some_iff.1 hfound).1
    have hmissing' := Check.missing_of_run (diagnose_eq_some_iff.1 hfound').1
    rw [hmissing, hmissing', hstage]
    exact h.lacking_sublist defect.stage

/-- The verdict on a session does not depend on the order of what it has. -/
theorem verdict_eq_of_perm (hnames : before.Names host policy)
    (hnames' : after.Names host policy)
    (hexports : before.iface.exports.Perm after.iface.exports)
    (himports : before.iface.imports.Perm after.iface.imports)
    (hgranted : before.granted.Perm after.granted) : before.verdict = after.verdict := by
  have hsame : CapabilitySet.ofList before.granted = .ofList after.granted :=
    CapabilitySet.ofList_eq_of_mem_iff fun name => hgranted.mem_iff
  have hagrees := Interface.agrees_of_perm hexports himports
  rw [hnames.verdict, hnames'.verdict, hsame, diagnose, diagnose,
    Check.run_eq_of_agrees hagrees]

end Known
end Session

/-- **Additions advance.**  Where the host version and the policy are known, a run of additive
steps, in any order, never reaches an earlier stage than before: each step leaves the rank of
the verdict as it is or raises it, so what is valid stays valid; and where the same stage
fails before and after a step, the names that are missing after it are some of those that were
missing before, in the same order.  A run of steps that remove imports and capabilities never
raises the rank.  The verdict after additive steps does not depend on their order. -/
theorem additions_advance {session : Session} {host : Host} {policy : Policy}
    (hnames : session.Names host policy) :
    (∀ edits : List Edit, (∀ edit ∈ edits, edit.Additive) →
      (session.states edits).IsChain
          (fun before after => before.RankLe after ∧ before.MissesNoMore after) ∧
        (session.states edits).Pairwise
          (fun earlier later => earlier.RankLe later ∧
            (earlier.verdict = .ok .valid → later.verdict = .ok .valid))) ∧
    (∀ edits : List Edit, (∀ edit ∈ edits, edit.Subtractive) →
      (session.states edits).IsChain (fun before after => after.RankLe before)) ∧
    (∀ edits reordered : List Edit, (∀ edit ∈ edits, edit.Additive) →
      edits.Perm reordered →
        (session.after edits).verdict = (session.after reordered).verdict) := by
  refine ⟨?_, ?_, ?_⟩
  · intro edits hadditive
    have hchain : (session.states edits).IsChain
        (fun before after => before.RankLe after ∧ before.MissesNoMore after) := by
      refine Session.isChain_states (I := fun session => session.Names host policy)
        ?_ ?_ hnames hadditive
      · intro before edit hbefore hedit
        exact (before.grows_of_additive hedit).names.2 hbefore
      · intro before edit hbefore hedit
        have hgrows := before.grows_of_additive hedit
        exact ⟨Session.rankLe_of_grows hbefore hgrows,
          Session.missesNoMore_of_grows hbefore hgrows⟩
    refine ⟨hchain, ?_⟩
    have hranks : (session.states edits).IsChain Session.RankLe :=
      hchain.imp fun before after h => h.1
    exact hranks.pairwise.imp fun h => ⟨h, h.valid⟩
  · intro edits hsubtractive
    refine Session.isChain_states (I := fun session => session.Names host policy)
      ?_ ?_ hnames hsubtractive
    · intro before edit hbefore hedit
      exact (before.grows_of_subtractive hedit).names.1 hbefore
    · intro before edit hbefore hedit
      have hgrows := before.grows_of_subtractive hedit
      exact Session.rankLe_of_grows (hgrows.names.1 hbefore) hgrows
  · intro edits reordered hadditive hperm
    have happends : ∀ edit ∈ edits, edit.Appends := fun edit hedit =>
      (hadditive edit hedit).appends
    have happends' : ∀ edit ∈ reordered, edit.Appends := fun edit hedit =>
      happends edit (hperm.mem_iff.2 hedit)
    rw [Session.after_of_appends happends, Session.after_of_appends happends']
    refine Session.verdict_eq_of_perm (hnames.extend _ _ _) (hnames.extend _ _ _) ?_ ?_ ?_
    · exact (hperm.filterMap _).append_left _
    · exact (hperm.filterMap _).append_left _
    · exact (hperm.filterMap _).append_left _

/-- A session with all that a contract needs but for its entry points, its imports and a
capability. -/
def stakingSession : Session where
  iface := ⟨[⟨"memory", "memory"⟩, ⟨"interface_version_8", "function"⟩,
    ⟨"requires_staking", "function"⟩], []⟩
  policyName := Policy.markerExports.name

/-- An export, a capability and an import are added; one export less is missing, and the order
makes no difference. -/
theorem additions_advance_staking :
    let edits : List Edit :=
      [.addExport ⟨"deallocate", "global"⟩, .grant "staking",
        .addImport ⟨"env", "abort", "function"⟩]
    stakingSession.Names Host.cosmwasm1 .markerExports ∧
      (∀ edit ∈ edits, edit.Additive) ∧
      (stakingSession.states edits).IsChain
        (fun before after => before.RankLe after ∧ before.MissesNoMore after) ∧
      (stakingSession.after edits).verdict = (stakingSession.after edits.reverse).verdict ∧
      stakingSession.verdict = .ok (.invalid .exports
        ("missing required export: \"allocate\", \"deallocate\", \"instantiate\". " ++
          "Exports required by VM: \"allocate\", \"deallocate\", \"instantiate\".")) ∧
      (stakingSession.after edits).verdict = .ok (.invalid .exports
        ("missing required export: \"allocate\", \"instantiate\". " ++
          "Exports required by VM: \"allocate\", \"deallocate\", \"instantiate\".")) := by
  intro edits
  have hnames : stakingSession.Names Host.cosmwasm1 .markerExports :=
    ⟨Host.resolve_cosmwasm1, Policy.resolve_name .markerExports⟩
  have hadditive : ∀ edit ∈ edits, edit.Additive := by decide
  obtain ⟨hruns, -, horder⟩ := additions_advance hnames
  exact ⟨hnames, hadditive, (hruns edits hadditive).1,
    horder edits edits.reverse hadditive edits.reverse_perm.symm, by decide +kernel,
    by decide +kernel⟩

end ContractAdmission
