import ContractAdmission.Proofs.FirstDefect
import ContractAdmission.Session

/-!
# Diagnoses

A verdict is the report of a diagnosis: the first defect that the checks find, if they find
one.  A verdict is a text, in which names with commas or quotes run into each other; the
diagnosis still has them as a list.

* `judge_value` and `Session.verdict_eq_map` — a verdict is the report of a diagnosis.
* `Check.Reports` — what each check can report.
* `Verdict.rank` — how many stages passed before a verdict was given.
* `rank_le_of_passes` — an interface that passes every stage that another passes gets at
  least as far.

Nothing is said here about how an interface changes; the rank is compared stage by stage.
-/

namespace ContractAdmission

/-- The place of a stage in the order in which the stages run, from zero. -/
def Stage.index (stage : Stage) : Nat := Stage.all.idxOf stage

/-- How many stages passed before a verdict was given: all of them, or those before the
stage that failed. -/
def Verdict.rank : Verdict → Nat
  | .valid => Stage.all.length
  | .invalid stage _ => stage.index

/-- The names whose absence a defect reports, in the order of the report. -/
def Defect.missing : Defect → List String
  | .missingExports missing _ => missing
  | .missingImports missing _ => missing
  | .missingCapabilities missing => missing
  | _ => []

/-- The first defect that the checks find in an interface. -/
def diagnose (iface : Interface) (terms : Terms) : Option Defect :=
  Stage.all.findSome? (Check.run iface terms)

/-- The names that a stage asks for and that are not there. -/
def Check.lacking (iface : Interface) (terms : Terms) : Stage → List String
  | .memories | .interfaceVersion => []
  | .exports => missing terms.host.requiredExports iface.exportNames
  | .imports => missing terms.host.requiredImports iface.qualifiedNames
  | .capabilities => ((terms.policy.required iface).diff terms.granted).toList

/-- What the check of a stage can report.  A report on a marker is on one that is exported. -/
inductive Check.Reports (iface : Interface) (terms : Terms) : Stage → Defect → Prop
  | noMemory : Reports iface terms .memories .noMemory
  | severalMemories : Reports iface terms .memories .severalMemories
  | noMarker : Reports iface terms .interfaceVersion .noMarker
  | severalMarkers : Reports iface terms .interfaceVersion .severalMarkers
  | unknownMarker (marker : String) (h : marker ∈ iface.exportNames) :
      Reports iface terms .interfaceVersion
        (.unknownMarker marker terms.host.version terms.host.interfaceVersions)
  | missingExports : Reports iface terms .exports
      (.missingExports (lacking iface terms .exports) terms.host.requiredExports)
  | missingImports : Reports iface terms .imports
      (.missingImports (lacking iface terms .imports) terms.host.requiredImports)
  | missingCapabilities : Reports iface terms .capabilities
      (.missingCapabilities (lacking iface terms .capabilities))

theorem Check.reports_of_run {iface : Interface} {terms : Terms} {stage : Stage}
    {defect : Defect} (h : run iface terms stage = some defect) :
    Reports iface terms stage defect := by
  cases stage with
  | memories =>
      simp only [run, memories] at h
      split at h <;> cases h
      · exact .noMemory
      · exact .severalMemories
  | interfaceVersion =>
      simp only [run, interfaceVersion] at h
      split at h
      · cases h
        exact .noMarker
      · rename_i marker hmarkers
        have hmarker : marker ∈ markers iface := by simp [hmarkers]
        split at h <;> cases h
        exact .unknownMarker marker (List.mem_of_mem_filter hmarker)
      · cases h
        exact .severalMarkers
  | exports =>
      simp only [run, exports] at h
      split at h <;> cases h
      exact .missingExports
  | imports =>
      simp only [run, imports] at h
      split at h <;> cases h
      exact .missingImports
  | capabilities =>
      simp only [run, capabilities] at h
      split at h <;> cases h
      exact .missingCapabilities

/-- What a check reports as missing is what its stage lacks. -/
theorem Check.missing_of_run {iface : Interface} {terms : Terms} {stage : Stage}
    {defect : Defect} (h : run iface terms stage = some defect) :
    defect.missing = lacking iface terms stage := by
  cases reports_of_run h <;> rfl

theorem Stage.mem_all (stage : Stage) : stage ∈ Stage.all := by
  cases stage <;> decide

theorem Stage.index_lt (stage : Stage) : stage.index < Stage.all.length :=
  List.idxOf_lt_length_iff.2 stage.mem_all

/-- What stands before a stage are the stages with a smaller index. -/
theorem Stage.mem_before_iff {before after : List Stage} {stage : Stage}
    (h : Stage.all = before ++ stage :: after) (other : Stage) :
    other ∈ before ↔ other.index < stage.index := by
  have hnodup : (before ++ stage :: after).Nodup := h ▸ (by decide : Stage.all.Nodup)
  have hstage : stage ∉ before := fun hmem =>
    (List.nodup_append.1 hnodup).2.2 stage hmem stage (by simp) rfl
  have hindex : stage.index = before.length := by
    rw [Stage.index, h, List.idxOf_append_of_notMem hstage]
    simp
  rw [hindex, Stage.index, h]
  constructor
  · intro hother
    rw [List.idxOf_append_of_mem hother]
    exact List.idxOf_lt_length_iff.2 hother
  · intro hlt
    by_contra hother
    rw [List.idxOf_append_of_notMem hother] at hlt
    omega

/-- A pipeline reports the first defect that one of its stages finds. -/
theorem judgeStages_value (check : Stage → Option Defect) (stages : List Stage) :
    (judgeStages check stages).value = .ofDefect? (stages.findSome? check) := by
  induction stages with
  | nil => rfl
  | cons stage rest ih =>
      cases hcheck : check stage with
      | none => simpa [judgeStages, hcheck] using ih
      | some defect => simp [judgeStages, hcheck]

theorem judge_value (iface : Interface) (terms : Terms) :
    (judge iface terms).value = .ofDefect? (diagnose iface terms) :=
  judgeStages_value _ _

section Diagnose

variable {iface iface' : Interface} {terms terms' : Terms} {defect : Defect}

theorem diagnose_eq_none_iff :
    diagnose iface terms = none ↔ ∀ stage, Check.run iface terms stage = none := by
  rw [diagnose, List.findSome?_eq_none_iff]
  constructor
  · intro hall stage
    exact hall stage stage.mem_all
  · intro hall stage _
    exact hall stage

/-- The diagnosis is what the first stage finds that finds anything. -/
theorem diagnose_eq_some_iff :
    diagnose iface terms = some defect ↔
      Check.run iface terms defect.stage = some defect ∧
        ∀ stage, stage.index < defect.stage.index → Check.run iface terms stage = none := by
  rw [diagnose, List.findSome?_eq_some_iff]
  constructor
  · rintro ⟨before, stage, after, hall, hfound, hbefore⟩
    obtain rfl := Check.stage_of_run hfound
    refine ⟨hfound, ?_⟩
    intro other hother
    exact hbefore other ((Stage.mem_before_iff hall other).2 hother)
  · rintro ⟨hfound, hbefore⟩
    obtain ⟨before, after, hall⟩ := List.append_of_mem defect.stage.mem_all
    refine ⟨before, defect.stage, after, hall, hfound, ?_⟩
    intro other hother
    exact hbefore other ((Stage.mem_before_iff hall other).1 hother)

theorem rank_ofDefect?_le (found : Option Defect) :
    (Verdict.ofDefect? found).rank ≤ Stage.all.length := by
  cases found with
  | none => exact Nat.le_refl _
  | some defect => exact Nat.le_of_lt defect.stage.index_lt

/-- Only a valid verdict has the highest rank. -/
theorem eq_none_of_rank {found : Option Defect}
    (h : Stage.all.length ≤ (Verdict.ofDefect? found).rank) : found = none := by
  cases found with
  | none => rfl
  | some defect => exact absurd h (Nat.not_le.2 defect.stage.index_lt)

/-- A stage comes before the verdict exactly when it passes, with all that run before it. -/
theorem index_lt_rank_iff {stage : Stage} :
    stage.index < (Verdict.ofDefect? (diagnose iface terms)).rank ↔
      ∀ other, other.index ≤ stage.index → Check.run iface terms other = none := by
  cases hfound : diagnose iface terms with
  | none =>
      have hpass := diagnose_eq_none_iff.1 hfound
      exact ⟨fun _ other _ => hpass other, fun _ => stage.index_lt⟩
  | some defect =>
      obtain ⟨hfails, hbefore⟩ := diagnose_eq_some_iff.1 hfound
      constructor
      · intro hlt other hother
        exact hbefore other (Nat.lt_of_le_of_lt hother hlt)
      · intro hpass
        by_contra hlate
        have hnone := hpass defect.stage (Nat.not_lt.1 hlate)
        rw [hfails] at hnone
        cases hnone

/-- Whoever passes every stage that another passes gets at least as far. -/
theorem rank_le_of_passes
    (h : ∀ stage, Check.run iface terms stage = none → Check.run iface' terms' stage = none) :
    (Verdict.ofDefect? (diagnose iface terms)).rank ≤
      (Verdict.ofDefect? (diagnose iface' terms')).rank := by
  cases hfound : diagnose iface' terms' with
  | none => exact rank_ofDefect?_le _
  | some defect =>
      obtain ⟨hfails, -⟩ := diagnose_eq_some_iff.1 hfound
      -- If the first got further, it passed the stage at which the second fails.
      by_contra hfurther
      have hpass := index_lt_rank_iff.1 (Nat.not_le.1 hfurther) defect.stage (Nat.le_refl _)
      rw [h _ hpass] at hfails
      cases hfails

end Diagnose

namespace Session

/-- The first defect that the checks find in the interface of a session, if the names that
the session uses are known. -/
def diagnosis (session : Session) : Except LookupError (Option Defect) :=
  session.request.terms.map (diagnose session.iface)

/-- The verdict on a session reports its diagnosis. -/
theorem verdict_eq_map (session : Session) :
    session.verdict = session.diagnosis.map Verdict.ofDefect? := by
  unfold verdict diagnosis assess
  cases session.request.terms with
  | error error => rfl
  | ok terms =>
      have hvalue := judge_value session.iface terms
      simp [Logged.mapValue, Except.map, hvalue]

/-- A session that uses known names has a diagnosis. -/
theorem diagnosis_of_known {session : Session} {host : Host} {policy : Policy}
    (hhost : Host.resolve session.hostVersion = .ok host)
    (hpolicy : Policy.resolve session.policyName = .ok policy) :
    session.diagnosis =
      .ok (diagnose session.iface ⟨host, policy, .ofList session.granted⟩) := by
  have hterms : session.request.terms = .ok ⟨host, policy, .ofList session.granted⟩ := by
    simp [Request.terms, request, hhost, hpolicy, bind, Except.bind, pure, Except.pure]
  rw [diagnosis, hterms]
  rfl

end Session
end ContractAdmission
