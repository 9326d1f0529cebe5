import ContractAdmission.Proofs.Checks
import ContractAdmission.Proofs.KnownNames

/-!
# The first defect

The pipeline stops at the first defect, so it leaves out checks that might find another
one.  This module relates it to the five checks, each run on its own: the verdict is the
first of theirs that is not `valid`, and the log is a trace of the stages up to there.

* `judgeStages_append_of_passing` and `judgeStages_cons_of_defect` — what a run over a
  list of stages does with the stages that pass, and with the first one that does not.
* `Check.stage_of_run` — a check reports defects of its own stage only.
* `assess_refines_checks` — verdict, log, kind and category of the pipeline, from the
  verdicts of the five checks.

A stage can pass or fail independently of the others, so nothing is assumed about which
of the five verdicts are `valid`.
-/

namespace ContractAdmission

section Stages

variable {check : Stage → Option Defect} {before rest : List Stage}

/-- Stages that pass leave a record each, and the run goes on after them. -/
theorem judgeStages_append_of_passing (h : ∀ stage ∈ before, check stage = none) :
    judgeStages check (before ++ rest) =
      ⟨before.map passedRecord ++ (judgeStages check rest).records,
        (judgeStages check rest).value⟩ := by
  induction before with
  | nil => rfl
  | cons stage before ih =>
      have hfirst : check stage = none := h stage (by simp)
      have hlater := ih fun other hother => h other (List.mem_cons_of_mem stage hother)
      simp only [List.cons_append, judgeStages, hfirst, hlater, List.map_cons]

/-- Where all stages pass the log has their records and nothing else. -/
theorem judgeStages_of_passing (h : ∀ stage ∈ before, check stage = none) :
    judgeStages check before = ⟨before.map passedRecord, .valid⟩ := by
  rw [← List.append_nil before, judgeStages_append_of_passing h]
  simp [judgeStages, Logged.pure]

/-- A run ends with the first stage that finds a defect. -/
theorem judgeStages_cons_of_defect {stage : Stage} {defect : Defect}
    (h : check stage = some defect) :
    judgeStages check (stage :: rest) =
      ⟨failedRecords stage defect, .invalid defect.stage defect.message⟩ := by
  simp only [judgeStages, h, Verdict.ofDefect?]

/-- Either all stages pass, or there is a first one that does not. -/
theorem passing_or_first_defect (check : Stage → Option Defect) (stages : List Stage) :
    (∀ stage ∈ stages, check stage = none) ∨
      ∃ before stage after defect, stages = before ++ stage :: after ∧
        (∀ other ∈ before, check other = none) ∧ check stage = some defect := by
  induction stages with
  | nil => exact Or.inl (by simp)
  | cons stage rest ih =>
      cases hcheck : check stage with
      | some defect => exact Or.inr ⟨[], stage, rest, defect, rfl, by simp, hcheck⟩
      | none =>
          rcases ih with hpass | ⟨before, first, after, defect, rfl, hbefore, hfirst⟩
          · exact Or.inl (by simpa [hcheck] using hpass)
          · exact Or.inr ⟨stage :: before, first, after, defect, rfl,
              by simpa [hcheck] using hbefore, hfirst⟩

end Stages

/-- A verdict is `valid` exactly when there is no defect. -/
theorem Verdict.ofDefect?_eq_valid_iff {found : Option Defect} :
    Verdict.ofDefect? found = .valid ↔ found = none := by
  cases found <;> simp [Verdict.ofDefect?]

/-- A verdict that is not `valid` reports a defect. -/
theorem Verdict.ofDefect?_eq_invalid_iff {found : Option Defect} {stage : Stage}
    {reason : String} :
    Verdict.ofDefect? found = .invalid stage reason ↔
      ∃ defect, found = some defect ∧ defect.stage = stage ∧ defect.message = reason := by
  cases found <;> simp [Verdict.ofDefect?]

namespace Check

/-- The defects that a check reports belong to its stage. -/
theorem stage_of_run {iface : Interface} {terms : Terms} {stage : Stage} {defect : Defect}
    (h : run iface terms stage = some defect) : defect.stage = stage := by
  cases stage with
  | memories =>
      simp only [run, memories] at h
      split at h <;> cases h <;> rfl
  | interfaceVersion =>
      simp only [run, interfaceVersion] at h
      split at h
      · cases h; rfl
      · split at h <;> cases h
        rfl
      · cases h; rfl
  | exports =>
      simp only [run, exports] at h
      split at h <;> cases h
      rfl
  | imports =>
      simp only [run, imports] at h
      split at h <;> cases h
      rfl
  | capabilities =>
      simp only [run, capabilities] at h
      split at h <;> cases h
      rfl

/-- The verdicts of the five checks, each run on its own, with the stages that they
belong to. -/
def verdicts (iface : Interface) (terms : Terms) : List (Stage × Verdict) :=
  [(.memories, .ofDefect? (memories iface)),
    (.interfaceVersion, .ofDefect? (interfaceVersion iface terms.host)),
    (.exports, .ofDefect? (exports iface terms.host)),
    (.imports, .ofDefect? (imports iface terms.host)),
    (.capabilities, .ofDefect? (capabilities iface terms.granted terms.policy))]

theorem verdicts_eq_map (iface : Interface) (terms : Terms) :
    verdicts iface terms =
      Stage.all.map fun stage => (stage, .ofDefect? (run iface terms stage)) := rfl

end Check

/-- Where the five verdicts are `valid`, so is that of the pipeline, and the log says so
of every stage. -/
theorem judge_of_all_valid {iface : Interface} {terms : Terms}
    (h : ∀ entry ∈ Check.verdicts iface terms, entry.2 = .valid) :
    judge iface terms = ⟨Stage.all.map passedRecord, .valid⟩ := by
  refine judgeStages_of_passing fun stage hstage => ?_
  rw [Check.verdicts_eq_map] at h
  exact Verdict.ofDefect?_eq_valid_iff.1 (h _ (List.mem_map_of_mem hstage))

/-- The first of the five verdicts that is not `valid` is that of the pipeline, and the
log ends with the two records about it. -/
theorem judge_of_first_invalid {iface : Interface} {terms : Terms} {stage kind : Stage}
    {reason : String} {before after : List (Stage × Verdict)}
    (hsplit : Check.verdicts iface terms = before ++ (stage, .invalid kind reason) :: after)
    (hbefore : ∀ entry ∈ before, entry.2 = .valid) :
    kind = stage ∧ judge iface terms =
      ⟨before.map (passedRecord ·.1) ++
        [⟨.debug, .validator, "Check " ++ stage.label ++ ": failed"⟩,
          ⟨.info, .validator, "Wasm contract failed " ++ stage.label ++ " check: " ++ reason⟩],
        .invalid kind reason⟩ := by
  -- A split of the verdicts is a split of the stages that they belong to.
  rw [Check.verdicts_eq_map] at hsplit
  obtain ⟨passed, later, hall, rfl, hlater⟩ := List.map_eq_append_iff.1 hsplit
  obtain ⟨failed, unseen, rfl, hfailed, -⟩ := List.map_eq_cons_iff.1 hlater
  obtain ⟨rfl, hverdict⟩ := Prod.mk.inj hfailed
  obtain ⟨defect, hdefect, rfl, rfl⟩ := Verdict.ofDefect?_eq_invalid_iff.1 hverdict
  have hpassed : ∀ other ∈ passed, Check.run iface terms other = none := by
    intro other hother
    exact Verdict.ofDefect?_eq_valid_iff.1 (hbefore _ (List.mem_map_of_mem hother))
  refine ⟨Check.stage_of_run hdefect, ?_⟩
  rw [judge, hall, judgeStages_append_of_passing hpassed, judgeStages_cons_of_defect hdefect,
    List.map_map]
  rfl

/-- The log of the pipeline consists of the five records of success exactly when the
verdict is `valid`. -/
theorem judge_valid_iff_records {iface : Interface} {terms : Terms} :
    (judge iface terms).value = .valid ↔
      (judge iface terms).records = Stage.all.map passedRecord := by
  rcases passing_or_first_defect (Check.run iface terms) Stage.all with
    hpass | ⟨before, stage, after, defect, hall, hbefore, hdefect⟩
  · simp [judge, judgeStages_of_passing hpass]
  · have hjudge : judge iface terms =
        ⟨before.map passedRecord ++ failedRecords stage defect,
          .invalid defect.stage defect.message⟩ := by
      rw [judge, hall, judgeStages_append_of_passing hbefore, judgeStages_cons_of_defect hdefect]
    rw [hjudge]
    -- The last record is about a failure, and no record of success is.
    have hinfo : (⟨.info, .validator, "Wasm contract failed " ++ stage.label ++ " check: " ++
        defect.message⟩ : Record) ∉ Stage.all.map passedRecord := by
      simp [passedRecord]
    constructor
    · intro h
      cases h
    · intro hrecords
      refine absurd ?_ hinfo
      rw [← hrecords]
      simp [failedRecords]

/-- A failure is about capabilities exactly when the four structural checks passed. -/
theorem judge_capability_iff {iface : Interface} {terms : Terms} {kind : Stage}
    {reason : String} (h : (judge iface terms).value = .invalid kind reason) :
    kind.category = .capability ↔
      Check.memories iface = none ∧ Check.interfaceVersion iface terms.host = none ∧
        Check.exports iface terms.host = none ∧ Check.imports iface terms.host = none := by
  rcases passing_or_first_defect (Check.run iface terms) Stage.all with
    hpass | ⟨before, stage, after, defect, hall, hbefore, hdefect⟩
  · have hvalid : (judge iface terms).value = .valid := by
      simp [judge, judgeStages_of_passing hpass]
    rw [hvalid] at h
    cases h
  · have hkind : kind = stage := by
      rw [judge, hall, judgeStages_append_of_passing hbefore,
        judgeStages_cons_of_defect hdefect] at h
      cases h
      exact Check.stage_of_run hdefect
    subst hkind
    cases kind with
    | capabilities =>
        -- The last stage occurs once, so what comes before it are the other four.
        have hsplit : [Stage.memories, .interfaceVersion, .exports, .imports] ++
            Stage.capabilities :: [] = before ++ .capabilities :: after := hall
        obtain ⟨rfl, -, -⟩ :=
          (List.append_cons_inj_of_notMem (by decide) (by decide)).1 hsplit
        refine ⟨fun _ => ⟨?_, ?_, ?_, ?_⟩, fun _ => rfl⟩
        · exact hbefore .memories (by decide)
        · exact hbefore .interfaceVersion (by decide)
        · exact hbefore .exports (by decide)
        · exact hbefore .imports (by decide)
    | memories =>
        have hfails : Check.memories iface = some defect := hdefect
        simp [Stage.category, hfails]
    | interfaceVersion =>
        have hfails : Check.interfaceVersion iface terms.host = some defect := hdefect
        simp [Stage.category, hfails]
    | exports =>
        have hfails : Check.exports iface terms.host = some defect := hdefect
        simp [Stage.category, hfails]
    | imports =>
        have hfails : Check.imports iface terms.host = some defect := hdefect
        simp [Stage.category, hfails]

/-- **The pipeline refines the five checks, and its log is a trace of them.**

A request whose names are known has a verdict.  If the five checks, each run on its own,
all pass, it is `valid`, and the log has one record of success for every stage.
Otherwise it is the first of their verdicts that is not `valid`, with the same kind and
reason; the log has one record of success for every stage before, then the two about the
failure, and nothing about later stages.  So `valid` goes with the five records of
success and with no other log, the kind of a failure is that of the stage that failed,
and its category is `capability` exactly when the four structural checks passed. -/
theorem assess_refines_checks (iface : Interface) {request : Request}
    (hversion : request.hostVersion ∈ Host.knownVersions)
    (hname : request.policyName ∈ Policy.knownNames) :
    ∃ host policy, Host.resolve request.hostVersion = .ok host ∧
      Policy.resolve request.policyName = .ok policy ∧
      let verdicts := Check.verdicts iface ⟨host, policy, request.granted⟩
      let outcome := assess iface request
      ((∀ entry ∈ verdicts, entry.2 = .valid) →
        outcome =
          ⟨Stage.all.map fun stage =>
              ⟨.debug, .validator, "Check " ++ stage.label ++ ": passed"⟩,
            .ok .valid⟩) ∧
      (∀ before stage kind reason after,
        verdicts = before ++ (stage, .invalid kind reason) :: after →
        (∀ entry ∈ before, entry.2 = .valid) →
          kind = stage ∧ outcome =
            ⟨(before.map fun entry =>
                ⟨.debug, .validator, "Check " ++ entry.1.label ++ ": passed"⟩) ++
              [⟨.debug, .validator, "Check " ++ stage.label ++ ": failed"⟩,
                ⟨.info, .validator,
                  "Wasm contract failed " ++ stage.label ++ " check: " ++ reason⟩],
              .ok (.invalid kind reason)⟩) ∧
      (outcome.value = .ok .valid ↔ outcome.records =
        [⟨.debug, .validator, "Check memories: passed"⟩,
          ⟨.debug, .validator, "Check interface_version: passed"⟩,
          ⟨.debug, .validator, "Check exports: passed"⟩,
          ⟨.debug, .validator, "Check imports: passed"⟩,
          ⟨.debug, .validator, "Check capabilities: passed"⟩]) ∧
      (∀ kind reason, outcome.value = .ok (.invalid kind reason) →
        (kind.category = .capability ↔
          Check.memories iface = none ∧ Check.interfaceVersion iface host = none ∧
            Check.exports iface host = none ∧ Check.imports iface host = none)) := by
  obtain ⟨host, hhost⟩ := Host.resolve_of_known hversion
  obtain ⟨policy, hpolicy⟩ := Policy.resolve_of_known hname
  refine ⟨host, policy, hhost, hpolicy, ?_⟩
  rw [assess_of_known iface hhost hpolicy]
  refine ⟨?_, ?_, ?_, ?_⟩
  · intro hvalid
    rw [judge_of_all_valid hvalid]
    rfl
  · intro before stage kind reason after hsplit hbefore
    obtain ⟨hkind, hjudge⟩ := judge_of_first_invalid hsplit hbefore
    rw [hjudge]
    exact ⟨hkind, rfl⟩
  · rw [Logged.mapValue, Except.ok.injEq]
    exact judge_valid_iff_records
  · intro kind reason hvalue
    rw [Logged.mapValue, Except.ok.injEq] at hvalue
    exact judge_capability_iff hvalue

/-- An interface with a memory and nothing else passes the first check and fails the
second, whatever the later ones would find. -/
theorem assess_refines_checks_memory :
    Host.defaultVersion ∈ Host.knownVersions ∧ Policy.defaultName ∈ Policy.knownNames ∧
      assess ⟨[⟨"memory", "memory"⟩], []⟩ {} =
        ⟨[⟨.debug, .validator, "Check memories: passed"⟩,
          ⟨.debug, .validator, "Check interface_version: failed"⟩,
          ⟨.info, .validator, "Wasm contract failed interface_version check: " ++
            "missing interface_version_* marker export"⟩],
          .ok (.invalid .interfaceVersion "missing interface_version_* marker export")⟩ := by
  have hversion : ({} : Request).hostVersion ∈ Host.knownVersions := by decide
  have hname : ({} : Request).policyName ∈ Policy.knownNames := by decide
  refine ⟨hversion, hname, ?_⟩
  obtain ⟨host, policy, -, -, -, hfirst, -⟩ :=
    assess_refines_checks ⟨[⟨"memory", "memory"⟩], []⟩ hversion hname
  exact (hfirst [(.memories, .valid)] .interfaceVersion .interfaceVersion
    "missing interface_version_* marker export" _ rfl (by simp)).2

end ContractAdmission
