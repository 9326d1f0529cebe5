import ContractAdmission.Proofs.AcceptedBinaries
import ContractAdmission.Proofs.BinaryInterface
import ContractAdmission.Proofs.ContractFailures

/-!
# What keeps a contract from a verdict

Seven things can be in the way of a verdict, and any number of them at once.  They count in a
fixed order: the first that applies is the one that is reported, the log ends where it was met,
and the others leave no trace.

* `Attempt.Meets` — that an obstacle is in the way, said of each without the others.
* `Attempt.StoppedBy` — that it is the first one.
* `Attempt.EndsAt`, `Attempt.Judged` — how a check ends, with its log.
* `first_obstacle_decides` — a check ends at an obstacle exactly when this is the first one.

A path that cannot be asked for is no obstacle in this sense: its error comes from outside, and
the statements are about the other paths.
-/

namespace ContractAdmission

/-! ### Bytes -/

namespace Wasm

/-- The record of a module that was accepted, with the lengths of its two lists. -/
def Module.countRecord (module : Module) : Record :=
  ⟨.debug, .compiler,
    "Compiled module with " ++ toString module.exports.length ++ " exports and " ++
      toString module.imports.length ++ " imports"⟩

section Compile

variable {engine : Engine} {bytes : Bytes} {module : Module}

theorem compile_of_noMagic (h : ¬ magic <+: bytes) :
    compile engine bytes = .error .noMagic := by
  have hmagic : ¬ magic.isPrefixOf bytes = true := by rwa [List.isPrefixOf_iff_prefix]
  rw [compile, if_neg hmagic]

theorem compile_of_malformed (hmagic : magic <+: bytes) (h : Module.decode engine bytes = none) :
    compile engine bytes = .error .malformed := by
  rw [compile, if_pos (List.isPrefixOf_iff_prefix.2 hmagic), h]

theorem compile_of_tag (hmagic : magic <+: bytes) (h : Module.decode engine bytes = some module)
    (htag : module.HasTag) : compile engine bytes = .error .unsupportedExtern := by
  rw [compile, if_pos (List.isPrefixOf_iff_prefix.2 hmagic), h]
  simp only [Module.interface?_eq_none_iff.2 htag]

/-- A module without tags has an interface, which lists as many entries as the module. -/
theorem exists_interface_of_compile (hmagic : magic <+: bytes)
    (h : Module.decode engine bytes = some module) (htag : ¬ module.HasTag) :
    ∃ iface, compile engine bytes = .ok iface ∧ compiledRecord iface = module.countRecord := by
  cases hiface : module.interface? with
  | none => exact absurd (Module.interface?_eq_none_iff.1 hiface) htag
  | some iface =>
      obtain ⟨hexports, himports⟩ := Module.lists_of_interface? hiface
      have hexported := congrArg List.length (map_some_of_mapM hexports)
      have himported := congrArg List.length (map_some_of_mapM himports)
      rw [List.length_map, List.length_map] at hexported himported
      refine ⟨iface, ?_, by rw [compiledRecord, hexported, himported]; rfl⟩
      rw [compile, if_pos (List.isPrefixOf_iff_prefix.2 hmagic), h]
      simp only [hiface]

end Compile
end Wasm

/-! ### Names -/

theorem Host.resolve_of_not_known {version : String} (h : version ∉ Host.knownVersions) :
    Host.resolve version = .error (.unknownHost version) := by
  have hnone : Host.ofVersion? version = none := by
    rw [← Option.not_isSome_iff_eq_none, Host.isSome_ofVersion?_iff]
    exact h
  rw [Host.resolve, hnone]

theorem Policy.resolve_of_not_known {name : String} (h : name ∉ Policy.knownNames) :
    Policy.resolve name = .error (.unknownPolicy name) := by
  have hnone : Policy.ofName? name = none := by
    rw [← Option.not_isSome_iff_eq_none, Policy.isSome_ofName?_iff]
    exact h
  rw [Policy.resolve, hnone]

/-- The host is looked up first, so nothing is said of the policy. -/
theorem Request.terms_of_unknown_host {request : Request}
    (h : request.hostVersion ∉ Host.knownVersions) :
    request.terms = .error (.unknownHost request.hostVersion) := by
  rw [Request.terms, Host.resolve_of_not_known h]
  rfl

theorem Request.terms_of_unknown_policy {request : Request}
    (hhost : request.hostVersion ∈ Host.knownVersions)
    (h : request.policyName ∉ Policy.knownNames) :
    request.terms = .error (.unknownPolicy request.policyName) := by
  obtain ⟨host, hresolved⟩ := Host.resolve_of_known hhost
  rw [Request.terms, hresolved, Policy.resolve_of_not_known h]
  rfl

/-! ### Obstacles -/

/-- What can keep a check from a verdict. -/
inductive Obstacle where
  | noFile
  | unreadable
  | noMagic
  | malformed
  | tag
  | unknownHost
  | unknownPolicy
  deriving DecidableEq, Repr

namespace Obstacle

/-- The obstacles in the order in which they count. -/
def all : List Obstacle :=
  [.noFile, .unreadable, .noMagic, .malformed, .tag, .unknownHost, .unknownPolicy]

/-- The place of an obstacle in this order, from zero. -/
def index (obstacle : Obstacle) : Nat := all.idxOf obstacle

/-- An obstacle in the contract itself, whatever is asked of it. -/
def InContract (obstacle : Obstacle) : Prop :=
  obstacle ≠ .unknownHost ∧ obstacle ≠ .unknownPolicy

end Obstacle

/-- A check of a contract: what is found where, how the contract is read, and what is asked
for. -/
structure Attempt where
  disk : Disk
  fault : Option ReadFault := none
  path : String
  capabilities : List String := []
  hostVersion : String := Host.defaultVersion
  policyName : String := Policy.defaultName

namespace Attempt

variable (attempt : Attempt)

/-- What is asked for. -/
def request : Request where
  granted := .ofList attempt.capabilities
  hostVersion := attempt.hostVersion
  policyName := attempt.policyName

/-- What the check leaves. -/
def outcome : Checked :=
  checkContract attempt.disk attempt.fault attempt.path attempt.request

/-- An obstacle is in the way, whatever else is.  Of a file there are contents, and of contents
that the decoder accepts there is a module. -/
def Meets : Obstacle → Prop
  | .noFile => ∀ bytes, attempt.disk.look attempt.path ≠ .file bytes
  | .unreadable => attempt.fault ≠ none
  | .noMagic => ∃ bytes, attempt.disk.look attempt.path = .file bytes ∧
      ¬ [0x00, 0x61, 0x73, 0x6d] <+: bytes
  | .malformed => ∃ bytes, attempt.disk.look attempt.path = .file bytes ∧
      Wasm.Module.decode {} bytes = none
  | .tag => ∃ bytes module, attempt.disk.look attempt.path = .file bytes ∧
      Wasm.Module.decode {} bytes = some module ∧ module.HasTag
  | .unknownHost => attempt.hostVersion ∉ Host.knownVersions
  | .unknownPolicy => attempt.policyName ∉ Policy.knownNames

/-- An obstacle is in the way, and none that counts before it. -/
structure StoppedBy (obstacle : Obstacle) : Prop where
  met : attempt.Meets obstacle
  first : ∀ other : Obstacle, other.index < obstacle.index → ¬ attempt.Meets other

/-- The record of a contract that was read, with its path and the number of its bytes. -/
def sizeRecord (bytes : Bytes) : Record :=
  ⟨.info, .validator,
    "Checking contract " ++ attempt.path ++ " (" ++ toString bytes.length ++ " bytes)"⟩

/-- How a check ends at an obstacle: with the records up to there, and with its error.  The
error of a name that is not known says which name that is, and which ones are. -/
inductive EndsAt : Obstacle → Checked → Prop
  | noFile : EndsAt .noFile ⟨[], .error (.contract (.notFound attempt.path))⟩
  | unreadable (fault : ReadFault) (hfault : attempt.fault = some fault) :
      EndsAt .unreadable ⟨[], .error (.contract (.unreadable attempt.path fault))⟩
  | noMagic (bytes : Bytes) (hfile : attempt.disk.look attempt.path = .file bytes) :
      EndsAt .noMagic
        ⟨[attempt.sizeRecord bytes], .error (.contract (.notCompiled .noMagic))⟩
  | malformed (bytes : Bytes) (hfile : attempt.disk.look attempt.path = .file bytes) :
      EndsAt .malformed
        ⟨[attempt.sizeRecord bytes], .error (.contract (.notCompiled .malformed))⟩
  | tag (bytes : Bytes) (hfile : attempt.disk.look attempt.path = .file bytes) :
      EndsAt .tag
        ⟨[attempt.sizeRecord bytes],
          .error (.contract (.notCompiled .unsupportedExtern))⟩
  | unknownHost (bytes : Bytes) (module : Wasm.Module)
      (hfile : attempt.disk.look attempt.path = .file bytes)
      (hmodule : Wasm.Module.decode {} bytes = some module)
      (htext : (LookupError.unknownHost attempt.hostVersion).message =
        "Unknown host version: " ++ attempt.hostVersion ++ ". Known versions: " ++
          ", ".intercalate Host.knownVersions) :
      EndsAt .unknownHost
        ⟨[attempt.sizeRecord bytes, module.countRecord],
          .error (.lookup (.unknownHost attempt.hostVersion))⟩
  | unknownPolicy (bytes : Bytes) (module : Wasm.Module)
      (hfile : attempt.disk.look attempt.path = .file bytes)
      (hmodule : Wasm.Module.decode {} bytes = some module)
      (htext : (LookupError.unknownPolicy attempt.policyName).message =
        "policy_type=" ++ Text.literal attempt.policyName ++ " not found in POLICY_CATALOG. " ++
          "Known policies: " ++ ", ".intercalate Policy.knownNames) :
      EndsAt .unknownPolicy
        ⟨[attempt.sizeRecord bytes, module.countRecord],
          .error (.lookup (.unknownPolicy attempt.policyName))⟩

/-- How a check ends that meets no obstacle: with the verdict on the interface, and with the
records of the checks after the two about the contract. -/
inductive Judged : Checked → Prop
  | verdict (bytes : Bytes) (module : Wasm.Module) (iface : Interface) (verdict : Verdict)
      (hfile : attempt.disk.look attempt.path = .file bytes)
      (hmodule : Wasm.Module.decode {} bytes = some module)
      (hiface : Wasm.compile {} bytes = .ok iface)
      (hverdict : (assess iface attempt.request).value = .ok verdict) :
      Judged
        ⟨attempt.sizeRecord bytes :: module.countRecord ::
            (assess iface attempt.request).records,
          .ok verdict⟩

/-! ### How far a check gets -/

/-- The contract is a file with these contents, and they can be read. -/
structure Opened (bytes : Bytes) : Prop where
  file : attempt.disk.look attempt.path = .file bytes
  read : attempt.fault = none

section Steps

variable {attempt} {bytes : Bytes} {iface : Interface}

theorem exists_file (h : ¬ attempt.Meets .noFile) :
    ∃ bytes, attempt.disk.look attempt.path = .file bytes := by
  simpa [Meets] using h

theorem exists_opened (hfile : ¬ attempt.Meets .noFile) (hread : ¬ attempt.Meets .unreadable) :
    ∃ bytes, attempt.Opened bytes := by
  obtain ⟨bytes, hbytes⟩ := exists_file hfile
  exact ⟨bytes, hbytes, not_not.1 hread⟩

namespace Opened

variable (h : attempt.Opened bytes)
include h

/-- There is one file, so an obstacle in its contents is one in these. -/
theorem contents_eq {other : Bytes} (hother : attempt.disk.look attempt.path = .file other) :
    other = bytes := by
  rw [h.file] at hother
  exact (Found.file.inj hother).symm

theorem magic_prefix (hmagic : ¬ attempt.Meets .noMagic) : Wasm.magic <+: bytes := by
  by_contra hnone
  exact hmagic ⟨bytes, h.file, hnone⟩

/-- Contents in which there is no obstacle have a module and an interface, and are recorded by
the lengths of its lists. -/
theorem exists_compiled (hmagic : ¬ attempt.Meets .noMagic)
    (hdecoded : ¬ attempt.Meets .malformed) (htag : ¬ attempt.Meets .tag) :
    ∃ module iface, Wasm.Module.decode {} bytes = some module ∧
      Wasm.compile {} bytes = .ok iface ∧ Wasm.compiledRecord iface = module.countRecord := by
  cases hmodule : Wasm.Module.decode {} bytes with
  | none => exact absurd ⟨bytes, h.file, hmodule⟩ hdecoded
  | some module =>
      have huntagged : ¬ module.HasTag := fun huses =>
        htag ⟨bytes, module, h.file, hmodule, huses⟩
      obtain ⟨iface, hiface, hrecord⟩ :=
        Wasm.exists_interface_of_compile (h.magic_prefix hmagic) hmodule huntagged
      exact ⟨module, iface, rfl, hiface, hrecord⟩

theorem outcome_eq :
    attempt.outcome =
      ⟨attempt.sizeRecord bytes :: (validate bytes attempt.request).records,
        (validate bytes attempt.request).value⟩ := by
  simp only [outcome, checkContract, h.file, h.read]
  rfl

theorem outcome_of_compile_error {error : CompileError}
    (hcompile : Wasm.compile {} bytes = .error error) :
    attempt.outcome =
      ⟨[attempt.sizeRecord bytes], .error (.contract (.notCompiled error))⟩ := by
  rw [h.outcome_eq, validate_of_compile_error hcompile]
  rfl

theorem outcome_of_lookup_error {error : LookupError}
    (hcompile : Wasm.compile {} bytes = .ok iface)
    (hterms : attempt.request.terms = .error error) :
    attempt.outcome =
      ⟨[attempt.sizeRecord bytes, Wasm.compiledRecord iface],
        .error (.lookup error)⟩ := by
  rw [h.outcome_eq, validate_of_compile hcompile, assess, hterms]
  rfl

theorem outcome_of_verdict {verdict : Verdict} (hcompile : Wasm.compile {} bytes = .ok iface)
    (hverdict : (assess iface attempt.request).value = .ok verdict) :
    attempt.outcome =
      ⟨attempt.sizeRecord bytes :: Wasm.compiledRecord iface ::
          (assess iface attempt.request).records,
        .ok verdict⟩ := by
  rw [h.outcome_eq, validate_of_compile hcompile, hverdict]
  rfl

end Opened

namespace StoppedBy

variable {obstacle : Obstacle} (h : attempt.StoppedBy obstacle)
include h

theorem exists_opened (hlate : Obstacle.unreadable.index < obstacle.index) :
    ∃ bytes, attempt.Opened bytes :=
  Attempt.exists_opened (h.first .noFile (Nat.lt_trans (by decide) hlate))
    (h.first .unreadable hlate)

theorem magic_prefix (hlate : Obstacle.noMagic.index < obstacle.index)
    (hopened : attempt.Opened bytes) : Wasm.magic <+: bytes :=
  hopened.magic_prefix (h.first .noMagic hlate)

/-- Behind the obstacles in the contract there are a module and its interface. -/
theorem exists_compiled (hlate : Obstacle.tag.index < obstacle.index) :
    ∃ bytes module iface, attempt.Opened bytes ∧ Wasm.Module.decode {} bytes = some module ∧
      Wasm.compile {} bytes = .ok iface ∧ Wasm.compiledRecord iface = module.countRecord := by
  obtain ⟨bytes, hopened⟩ := h.exists_opened (Nat.lt_trans (by decide) hlate)
  obtain ⟨module, iface, hcompiled⟩ := hopened.exists_compiled
    (h.first .noMagic (Nat.lt_trans (by decide) hlate))
    (h.first .malformed (Nat.lt_trans (by decide) hlate)) (h.first .tag hlate)
  exact ⟨bytes, module, iface, hopened, hcompiled⟩

/-- A check ends at the first obstacle that it meets. -/
theorem endsAt (hprobe : attempt.disk.look attempt.path ≠ .unaskable) :
    attempt.EndsAt obstacle attempt.outcome := by
  have hmet := h.met
  cases obstacle with
  | noFile =>
      have hend : attempt.outcome = ⟨[], .error (.contract (.notFound attempt.path))⟩ := by
        cases hlook : attempt.disk.look attempt.path with
        | unaskable => exact absurd hlook hprobe
        | file bytes => exact absurd hlook (hmet bytes)
        | absent => simp only [outcome, checkContract, hlook, Logged.pure]
        | directory => simp only [outcome, checkContract, hlook, Logged.pure]
      rw [hend]
      exact .noFile
  | unreadable =>
      obtain ⟨bytes, hlook⟩ := exists_file (h.first .noFile (by decide))
      obtain ⟨fault, hfault⟩ := Option.ne_none_iff_exists'.1 hmet
      have hend : attempt.outcome =
          ⟨[], .error (.contract (.unreadable attempt.path fault))⟩ := by
        simp only [outcome, checkContract, hlook, hfault, Logged.pure]
      rw [hend]
      exact .unreadable fault hfault
  | noMagic =>
      obtain ⟨bytes, hopened⟩ := h.exists_opened (by decide)
      obtain ⟨other, hother, hmagic⟩ := hmet
      obtain rfl := hopened.contents_eq hother
      rw [hopened.outcome_of_compile_error (Wasm.compile_of_noMagic hmagic)]
      exact .noMagic other hother
  | malformed =>
      obtain ⟨bytes, hopened⟩ := h.exists_opened (by decide)
      obtain ⟨other, hother, hrefused⟩ := hmet
      obtain rfl := hopened.contents_eq hother
      have hmagic := h.magic_prefix (by decide) hopened
      rw [hopened.outcome_of_compile_error (Wasm.compile_of_malformed hmagic hrefused)]
      exact .malformed other hother
  | tag =>
      obtain ⟨bytes, hopened⟩ := h.exists_opened (by decide)
      obtain ⟨other, module, hother, hmodule, htag⟩ := hmet
      obtain rfl := hopened.contents_eq hother
      have hmagic := h.magic_prefix (by decide) hopened
      rw [hopened.outcome_of_compile_error (Wasm.compile_of_tag hmagic hmodule htag)]
      exact .tag other hother
  | unknownHost =>
      obtain ⟨bytes, module, iface, hopened, hmodule, hiface, hrecord⟩ :=
        h.exists_compiled (by decide)
      rw [hopened.outcome_of_lookup_error hiface (Request.terms_of_unknown_host hmet), hrecord]
      exact .unknownHost bytes module hopened.file hmodule rfl
  | unknownPolicy =>
      obtain ⟨bytes, module, iface, hopened, hmodule, hiface, hrecord⟩ :=
        h.exists_compiled (by decide)
      have hhost : attempt.request.hostVersion ∈ Host.knownVersions :=
        not_not.1 (h.first .unknownHost (by decide))
      rw [hopened.outcome_of_lookup_error hiface (Request.terms_of_unknown_policy hhost hmet),
        hrecord]
      exact .unknownPolicy bytes module hopened.file hmodule rfl

end StoppedBy

/-- A check that meets no obstacle ends with a verdict. -/
theorem judged_of_no_obstacle (h : ∀ obstacle, ¬ attempt.Meets obstacle) :
    attempt.Judged attempt.outcome := by
  obtain ⟨bytes, hopened⟩ := exists_opened (h .noFile) (h .unreadable)
  obtain ⟨module, iface, hmodule, hiface, hrecord⟩ :=
    hopened.exists_compiled (h .noMagic) (h .malformed) (h .tag)
  obtain ⟨host, hhost⟩ := Host.resolve_of_known (not_not.1 (h .unknownHost))
  obtain ⟨policy, hpolicy⟩ := Policy.resolve_of_known (not_not.1 (h .unknownPolicy))
  have hverdict : (assess iface attempt.request).value =
      .ok (judge iface ⟨host, policy, attempt.request.granted⟩).value := by
    rw [assess_of_known iface hhost hpolicy]
    rfl
  rw [hopened.outcome_of_verdict hiface hverdict, hrecord]
  exact .verdict bytes module iface _ hopened.file hmodule hiface hverdict

/-- Where an obstacle is met, there is a first one. -/
theorem exists_stoppedBy {obstacle : Obstacle} (h : attempt.Meets obstacle) :
    ∃ first, attempt.StoppedBy first := by
  induction hindex : obstacle.index using Nat.strong_induction_on generalizing obstacle with
  | _ index ih =>
      by_cases hearlier : ∃ other : Obstacle, other.index < obstacle.index ∧ attempt.Meets other
      · obtain ⟨other, hlt, hother⟩ := hearlier
        exact ih other.index (hindex ▸ hlt) hother rfl
      · exact ⟨obstacle, h, fun other hlt hother => hearlier ⟨other, hlt, hother⟩⟩

/-- Contents with an obstacle in them have no interface. -/
theorem Opened.exists_compile_error (hopened : attempt.Opened bytes) {obstacle : Obstacle}
    (hcontract : obstacle.InContract) (h : attempt.Meets obstacle) :
    ∃ error, Wasm.compile {} bytes = .error error := by
  by_cases hmagic : Wasm.magic <+: bytes
  · cases obstacle with
    | noFile => exact absurd hopened.file (h bytes)
    | unreadable => exact absurd hopened.read h
    | noMagic =>
        obtain ⟨other, hother, hnone⟩ := h
        obtain rfl := hopened.contents_eq hother
        exact absurd hmagic hnone
    | malformed =>
        obtain ⟨other, hother, hrefused⟩ := h
        obtain rfl := hopened.contents_eq hother
        exact ⟨_, Wasm.compile_of_malformed hmagic hrefused⟩
    | tag =>
        obtain ⟨other, module, hother, hmodule, htag⟩ := h
        obtain rfl := hopened.contents_eq hother
        exact ⟨_, Wasm.compile_of_tag hmagic hmodule htag⟩
    | unknownHost => exact absurd rfl hcontract.1
    | unknownPolicy => exact absurd rfl hcontract.2
  · exact ⟨_, Wasm.compile_of_noMagic hmagic⟩

/-- Where there is an obstacle in the contract, nothing depends on what is asked for. -/
theorem outcome_eq_of_inContract {obstacle : Obstacle} (hcontract : obstacle.InContract)
    (h : attempt.Meets obstacle) (capabilities : List String) (hostVersion policyName : String) :
    ({ attempt with capabilities, hostVersion, policyName } : Attempt).outcome =
      attempt.outcome := by
  cases hlook : attempt.disk.look attempt.path with
  | unaskable => simp only [outcome, checkContract, hlook]
  | absent => simp only [outcome, checkContract, hlook]
  | directory => simp only [outcome, checkContract, hlook]
  | file bytes =>
      by_cases hread : attempt.fault = none
      · have hopened : attempt.Opened bytes := ⟨hlook, hread⟩
        have hother : Opened { attempt with capabilities, hostVersion, policyName } bytes :=
          ⟨hlook, hread⟩
        obtain ⟨error, hcompile⟩ := hopened.exists_compile_error hcontract h
        rw [hopened.outcome_of_compile_error hcompile, hother.outcome_of_compile_error hcompile]
        -- The record that is left does not mention what is asked for.
        rfl
      · obtain ⟨fault, hfault⟩ := Option.ne_none_iff_exists'.1 hread
        simp only [outcome, checkContract, hlook, hfault]

end Steps
end Attempt

/-- The obstacle that an error reports. -/
def CheckError.obstacle? : CheckError → Option Obstacle
  | .contract (.notFound _) => some .noFile
  | .contract (.unreadable _ _) => some .unreadable
  | .contract (.notCompiled .noMagic) => some .noMagic
  | .contract (.notCompiled .malformed) => some .malformed
  | .contract (.notCompiled .unsupportedExtern) => some .tag
  | .lookup (.unknownHost _) => some .unknownHost
  | .lookup (.unknownPolicy _) => some .unknownPolicy
  | .unaskable => none

namespace Attempt

variable {attempt : Attempt} {obstacle : Obstacle} {outcome : Checked}

/-- A check that ends at an obstacle reports this one. -/
theorem EndsAt.exists_error (h : attempt.EndsAt obstacle outcome) :
    ∃ error, outcome.value = .error error ∧ error.obstacle? = some obstacle := by
  cases h <;> exact ⟨_, rfl, rfl⟩

theorem Judged.exists_verdict (h : attempt.Judged outcome) :
    ∃ verdict, outcome.value = .ok verdict := by
  obtain ⟨bytes, module, iface, verdict⟩ := h
  exact ⟨verdict, rfl⟩

/-- What a check reports is the first obstacle that it meets, since it has one outcome and that
reports one obstacle. -/
theorem EndsAt.stoppedBy (hprobe : attempt.disk.look attempt.path ≠ .unaskable)
    (h : attempt.EndsAt obstacle attempt.outcome) : attempt.StoppedBy obstacle := by
  obtain ⟨error, hvalue, hreported⟩ := h.exists_error
  by_cases hmet : ∃ other, attempt.Meets other
  · obtain ⟨other, hother⟩ := hmet
    obtain ⟨first, hfirst⟩ := exists_stoppedBy hother
    obtain ⟨error', hvalue', hreported'⟩ := (hfirst.endsAt hprobe).exists_error
    rw [hvalue', Except.error.injEq] at hvalue
    rw [hvalue, hreported, Option.some.injEq] at hreported'
    exact hreported' ▸ hfirst
  · have hnone : ∀ other, ¬ attempt.Meets other := fun other hother => hmet ⟨other, hother⟩
    obtain ⟨verdict, hverdict⟩ := (judged_of_no_obstacle hnone).exists_verdict
    rw [hverdict] at hvalue
    cases hvalue

theorem Judged.not_meets (hprobe : attempt.disk.look attempt.path ≠ .unaskable)
    (h : attempt.Judged attempt.outcome) (obstacle : Obstacle) : ¬ attempt.Meets obstacle := by
  intro hmet
  obtain ⟨verdict, hverdict⟩ := h.exists_verdict
  obtain ⟨first, hfirst⟩ := exists_stoppedBy hmet
  obtain ⟨error, hvalue, -⟩ := (hfirst.endsAt hprobe).exists_error
  rw [hverdict] at hvalue
  cases hvalue

end Attempt

/-- **The first obstacle decides.**

Let the path of a contract be one that can be asked for; whatever else is the case, any number
of obstacles can be in the way.  The check ends at an obstacle, with its error and with the log
up to there, exactly when this is the first one that is met; and it has a verdict, with the log
of the checks behind the two records about the contract, exactly when none is met.  So where
there is an obstacle in the contract itself, neither the error nor the log depends on what was
asked for: names that are not known are not reported then, and hide nothing. -/
theorem first_obstacle_decides {attempt : Attempt}
    (hprobe : attempt.disk.look attempt.path ≠ .unaskable) :
    (∀ obstacle, attempt.EndsAt obstacle attempt.outcome ↔ attempt.StoppedBy obstacle) ∧
      (attempt.Judged attempt.outcome ↔ ∀ obstacle, ¬ attempt.Meets obstacle) ∧
      (∀ obstacle : Obstacle, obstacle.InContract → attempt.Meets obstacle →
        ∀ capabilities hostVersion policyName,
          ({ attempt with capabilities, hostVersion, policyName } : Attempt).outcome =
            attempt.outcome) := by
  refine ⟨?_, ?_, ?_⟩
  · intro obstacle
    exact ⟨fun hends => hends.stoppedBy hprobe, fun hstopped => hstopped.endsAt hprobe⟩
  · exact ⟨fun hjudged => hjudged.not_meets hprobe, Attempt.judged_of_no_obstacle⟩
  · intro obstacle hcontract hmet
    exact Attempt.outcome_eq_of_inContract hcontract hmet

/-- A check of one file, asked for a host and a policy that are not known. -/
def unknownNamesAttempt (bytes : Bytes) : Attempt where
  disk := FileTree.disk ⟨[(["a.wasm"], .file bytes)]⟩
  path := "a.wasm"
  hostVersion := "cosmwasm-9"
  policyName := "strict"

/-- With a module that has nothing in it the host is reported, behind both records about the
contract.  With bytes that are no module neither name is. -/
theorem first_obstacle_decides_unknown_names :
    (unknownNamesAttempt Wasm.header).EndsAt .unknownHost
        (unknownNamesAttempt Wasm.header).outcome ∧
      (unknownNamesAttempt [0x61]).EndsAt .noMagic (unknownNamesAttempt [0x61]).outcome := by
  have hlook : ∀ bytes, (unknownNamesAttempt bytes).disk.look "a.wasm" = .file bytes :=
    fun bytes => rfl
  have hprobe : ∀ bytes, (unknownNamesAttempt bytes).disk.look "a.wasm" ≠ .unaskable := by
    intro bytes
    rw [hlook]
    exact Found.noConfusion
  constructor
  · have hunknown : "cosmwasm-9" ∉ Host.knownVersions := by decide
    refine ((first_obstacle_decides (hprobe Wasm.header)).1 .unknownHost).2 ⟨hunknown, ?_⟩
    have hmodule : Wasm.Module.decode {} Wasm.header = some {} := by decide +kernel
    have hfile : ∀ bytes, (unknownNamesAttempt Wasm.header).disk.look "a.wasm" = .file bytes →
        bytes = Wasm.header := fun bytes hbytes => (Found.file.inj hbytes).symm
    intro other hearlier
    cases other with
    | noFile => exact fun h => h Wasm.header (hlook _)
    | unreadable => exact fun h => h rfl
    | noMagic =>
        rintro ⟨bytes, hbytes, hmagic⟩
        rw [hfile bytes hbytes] at hmagic
        exact hmagic (List.prefix_append _ _)
    | malformed =>
        rintro ⟨bytes, hbytes, hrefused⟩
        rw [hfile bytes hbytes, hmodule] at hrefused
        cases hrefused
    | tag =>
        rintro ⟨bytes, module, hbytes, hdecoded, htag⟩
        rw [hfile bytes hbytes, hmodule, Option.some.injEq] at hdecoded
        subst hdecoded
        exact absurd htag (by simp [Wasm.Module.HasTag])
    | unknownHost => exact absurd hearlier (by decide)
    | unknownPolicy => exact absurd hearlier (by decide)
  · refine ((first_obstacle_decides (hprobe [0x61])).1 .noMagic).2
      ⟨⟨[0x61], hlook _, by decide⟩, ?_⟩
    intro other hearlier
    cases other with
    | noFile => exact fun h => h [0x61] (hlook _)
    | unreadable => exact fun h => h rfl
    | _ => exact absurd hearlier (by decide)

end ContractAdmission
