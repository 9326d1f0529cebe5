import ContractAdmission.Proofs.Checks
import ContractAdmission.Proofs.Gathering
import ContractAdmission.Proofs.KnownNames
import ContractAdmission.Proofs.PathLimits

/-!
# What goes wrong with a contract

A contract whose path can be asked for has a verdict, or one of the errors that the
program reports as its own.  A path that cannot be asked for is the one exception: it is
probed before anything is guarded, so its error is not reported but escapes.

* `checkContract_unaskable_iff` — the only other error of a check with known names.
* `contract_failures_contained_iff` — exactly when a check, and a run that has its
  configuration, ends as it should.
* `long_name_not_contained` — a name of 256 letters is looked up and escapes.
-/

namespace ContractAdmission

/-- Bytes have a verdict, or the error that they have no interface, when the names of
the request are known. -/
theorem validate_contained (bytes : Bytes) {request : Request} (engine : Wasm.Engine)
    (hversion : request.hostVersion ∈ Host.knownVersions)
    (hname : request.policyName ∈ Policy.knownNames) :
    (∃ verdict, (validate bytes request engine).value = .ok verdict) ∨
      ∃ error, (validate bytes request engine).value = .error (.contract (.notCompiled error)) := by
  cases hcompile : Wasm.compile engine bytes with
  | error error =>
      exact Or.inr ⟨error, by simp [validate, hcompile, Logged.pure]⟩
  | ok iface =>
      obtain ⟨host, hhost⟩ := Host.resolve_of_known hversion
      obtain ⟨policy, hpolicy⟩ := Policy.resolve_of_known hname
      have hassess := assess_of_known iface hhost hpolicy
      refine Or.inl ⟨(judge iface ⟨host, policy, request.granted⟩).value, ?_⟩
      simp [validate, hcompile, hassess, Logged.mapValue, Except.mapError]

/-- A check with known names has a verdict, an error of the program, or a path that
cannot be asked for. -/
theorem checkContract_unaskable_iff {disk : Disk} (fault : Option ReadFault)
    {path : String} {request : Request}
    (hversion : request.hostVersion ∈ Host.knownVersions)
    (hname : request.policyName ∈ Policy.knownNames) :
    ((∃ verdict, (checkContract disk fault path request).value = .ok verdict) ∨
      (∃ error, (checkContract disk fault path request).value = .error (.contract error))) ↔
        disk.look path ≠ .unaskable := by
  cases hlook : disk.look path with
  | unaskable => simp [checkContract, hlook, Logged.pure]
  | absent => simp [checkContract, hlook, Logged.pure]
  | directory => simp [checkContract, hlook, Logged.pure]
  | file bytes =>
      cases fault with
      | some fault => simp [checkContract, hlook, Logged.pure]
      | none =>
          have hvalue : (checkContract disk none path request).value =
              (validate bytes request).value := by
            simp [checkContract, hlook]
          rw [hvalue]
          rcases validate_contained bytes {} hversion hname with
            ⟨verdict, hverdict⟩ | ⟨error, herror⟩
          · simp [hverdict]
          · simp [herror]

/-- The error of a path that cannot be asked for. -/
theorem checkContract_of_unaskable {disk : Disk} {fault : Option ReadFault}
    {path : String} {request : Request} (h : disk.look path = .unaskable) :
    checkContract disk fault path request = ⟨[], .error .unaskable⟩ := by
  simp [checkContract, h, Logged.pure]

namespace Cli

/-- An accepted command line is carried out. -/
theorem run_of_parse {program : Program} {world : World} {words : List String}
    {arguments : Arguments} (h : Arguments.parse words = .ok arguments) :
    run program world words = arguments.run program world := by
  simp [run, h]

namespace Arguments

/-- A run can ask for capabilities unless their option was used without a text. -/
theorem request?_eq_none_iff {arguments : Arguments} {config : Config} :
    arguments.request? config = none ↔
      ∃ texts, arguments.options.capabilities = some texts ∧ none ∈ texts := by
  unfold request? granted?
  cases arguments.options.capabilities with
  | none => simp
  | some texts => simp [mapM_eq_none_iff]

/-- What a run leaves that has its configuration and can ask for capabilities is what
the check of its contract leaves. -/
theorem check_of_request {arguments : Arguments} (program : Program) {world : World}
    {config : Config} {request : Request}
    (hconfig : arguments.configuration world = .ok config)
    (hrequest : arguments.request? config = some request) :
    (arguments.check program world).value =
      match (checkContract world.disk world.fault arguments.path request).value with
      | .ok verdict => .ok (some verdict)
      | .error (.contract _) => .ok none
      | .error (.lookup error) => .error (.lookup error)
      | .error .unaskable => .error .unaskable := by
  simp only [check, hconfig, hrequest]
  cases (checkContract world.disk world.fault arguments.path request).value with
  | ok verdict => rfl
  | error error =>
      cases error with
      | contract error => rfl
      | lookup error => rfl
      | unaskable => rfl

/-- A run that has its configuration ends with an exit code, unless its capabilities
have no text or its contract cannot be asked for. -/
theorem ending_of_configuration (program : Program) {world : World} {words : List String}
    {arguments : Arguments} {config : Config} (hwords : parse words = .ok arguments)
    (hconfig : arguments.configuration world = .ok config) :
    (arguments.request? config = none ∧
        (arguments.run program world).ending = .escape .valueless) ∨
      (arguments.request? config ≠ none ∧ world.disk.look arguments.path = .unaskable ∧
        (arguments.run program world).ending = .escape .unaskable) ∨
      (arguments.request? config ≠ none ∧ world.disk.look arguments.path ≠ .unaskable ∧
        ∃ verdict, (arguments.run program world).ending = .exit (exitCode verdict)) := by
  cases hrequest : arguments.request? config with
  | none =>
      refine Or.inl ⟨rfl, ?_⟩
      simp [run, check, hconfig, hrequest]
  | some request =>
      have hvalue := check_of_request program hconfig hrequest
      -- The names of a run are known, so all that can go wrong is the path.
      obtain ⟨hversion, hname⟩ := request_known hwords hconfig hrequest
      by_cases hlook : world.disk.look arguments.path = .unaskable
      · refine Or.inr (Or.inl ⟨by simp, hlook, ?_⟩)
        rw [checkContract_of_unaskable hlook] at hvalue
        simp [run, hvalue]
      · refine Or.inr (Or.inr ⟨by simp, hlook, ?_⟩)
        rcases (checkContract_unaskable_iff world.fault hversion hname).2 hlook with
          ⟨verdict, hverdict⟩ | ⟨error, herror⟩
        · rw [hverdict] at hvalue
          exact ⟨some verdict, by simp [run, hvalue]⟩
        · rw [herror] at hvalue
          exact ⟨none, by simp [run, hvalue]⟩

end Arguments

/-- There are three exit codes. -/
theorem exitCode_le (verdict : Option Verdict) : exitCode verdict ≤ 2 := by
  rcases verdict with _ | (_ | _) <;> simp [exitCode]

end Cli

/-- **Failures of a contract are contained, except for paths that cannot be asked for.**

A check with known names has a verdict or an error of the program exactly when its path
can be asked for.  A run that has its configuration ends with one of the exit codes
exactly when, besides, every use of the option for capabilities has a text; otherwise
the error of one or the other escapes.  In a working directory the paths that cannot be
asked for are the overlong ones. -/
theorem contract_failures_contained_iff (program : Cli.Program) (world : Cli.World) :
    (∀ (path : String) (request : Request),
      request.hostVersion ∈ Host.knownVersions → request.policyName ∈ Policy.knownNames →
        (((∃ verdict,
            (checkContract world.disk world.fault path request).value = .ok verdict) ∨
          (∃ error, (checkContract world.disk world.fault path request).value =
            .error (.contract error))) ↔ world.disk.look path ≠ .unaskable)) ∧
    (∀ (words : List String) (arguments : Cli.Arguments) (config : Config),
      Cli.Arguments.parse words = .ok arguments →
      arguments.configuration world = .ok config →
        ((∃ code ≤ 2, (Cli.run program world words).ending = .exit code) ↔
          (∀ texts, arguments.options.capabilities = some texts → none ∉ texts) ∧
            world.disk.look arguments.path ≠ .unaskable) ∧
        (∀ error, (Cli.run program world words).ending = .escape error →
          error = .valueless ∨
            (error = .unaskable ∧ world.disk.look arguments.path = .unaskable))) ∧
    (∀ (tree : FileTree) (text : String), tree.disk.look text = .unaskable ↔
      ∃ path, Path.ofText? text = some path ∧ tree.Overlong path) := by
  refine ⟨?_, ?_, fun tree text => FileTree.look_eq_unaskable_iff⟩
  · intro path request hversion hname
    exact checkContract_unaskable_iff world.fault hversion hname
  · intro words arguments config hwords hconfig
    have hvalued : arguments.request? config ≠ none ↔
        ∀ texts, arguments.options.capabilities = some texts → none ∉ texts := by
      rw [Ne, Cli.Arguments.request?_eq_none_iff]
      simp only [not_exists, not_and]
    rw [← hvalued, Cli.run_of_parse hwords]
    rcases Cli.Arguments.ending_of_configuration program hwords hconfig with
      ⟨hrequest, hending⟩ | ⟨hrequest, hlook, hending⟩ | ⟨hrequest, hlook, verdict, hending⟩
    · simp [hrequest, hending]
    · simp [hlook, hending]
    · rw [hending]
      refine ⟨⟨fun _ => ⟨hrequest, hlook⟩, fun _ => ⟨_, Cli.exitCode_le verdict, rfl⟩⟩, ?_⟩
      intro error herror
      cases herror

/-- A working directory with one file, which is no binary. -/
def textDirectory : FileTree := ⟨[(["a.wasm"], .file [0x61, 0x62])]⟩

/-- A run on a file that is no binary ends with an exit code. -/
theorem contract_failures_contained_text :
    Cli.Arguments.parse ["a.wasm"] = .ok ⟨"a.wasm", {}⟩ ∧
      ∃ code ≤ 2, (Cli.run .command ⟨textDirectory.disk, {}, none⟩ ["a.wasm"]).ending =
        .exit code := by
  have hwords : Cli.Arguments.parse ["a.wasm"] = .ok ⟨"a.wasm", {}⟩ := by decide +kernel
  have hconfig : (Cli.Arguments.mk "a.wasm" {}).configuration ⟨textDirectory.disk, {}, none⟩ =
      .ok ⟨"cosmwasm-1", "none", []⟩ := by
    rfl
  have hlook : textDirectory.disk.look "a.wasm" ≠ .unaskable := by decide +kernel
  refine ⟨hwords, ?_⟩
  have hrun := (contract_failures_contained_iff .command
    ⟨textDirectory.disk, {}, none⟩).2.1 ["a.wasm"] _ _ hwords hconfig
  refine hrun.1.2 ⟨?_, hlook⟩
  intro texts htexts
  cases htexts

/-- A name that is one byte too long. -/
def longName : String := String.ofList (List.replicate 256 'a')

/-- A contract whose name is too long has neither a verdict nor an error of the program,
and a run on it escapes. -/
theorem long_name_not_contained :
    ¬ ((∃ verdict, (checkContract ({} : FileTree).disk none longName {}).value =
          .ok verdict) ∨
        ∃ error, (checkContract ({} : FileTree).disk none longName {}).value =
          .error (.contract error)) ∧
      (Cli.run .command ⟨({} : FileTree).disk, {}, none⟩ [longName]).ending =
        .escape .unaskable := by
  have hchars : longName.toList = List.replicate 256 'a' := String.toList_ofList
  have hplain : ∀ c, c ≠ 'a' → c ∉ longName.toList := fun c hc hmem =>
    hc (List.eq_of_mem_replicate (hchars ▸ hmem))
  have hlong : maxNameBytes < longName.utf8ByteSize := by decide +kernel
  have hlook := ({} : FileTree).look_of_long_name (hplain '/' (by decide))
    (hplain '\x00' (by decide)) hlong
  have hwords : Cli.Arguments.parse [longName] = .ok ⟨longName, {}⟩ := by decide +kernel
  have hconfig : (Cli.Arguments.mk longName {}).configuration
      ⟨({} : FileTree).disk, {}, none⟩ = .ok ⟨"cosmwasm-1", "none", []⟩ := rfl
  constructor
  · rw [checkContract_of_unaskable hlook]
    simp
  · rw [Cli.run_of_parse hwords]
    rcases Cli.Arguments.ending_of_configuration .command hwords hconfig with
      ⟨hvalueless, -⟩ | ⟨-, -, hending⟩ | ⟨-, hasked, -⟩
    · cases hvalueless
    · exact hending
    · exact absurd hlook hasked

end ContractAdmission
