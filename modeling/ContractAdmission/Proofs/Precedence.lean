import ContractAdmission.Proofs.CommandLine
import ContractAdmission.Proofs.ConfigFailures
import ContractAdmission.Proofs.Truncation

/-!
# Precedence of the command line

What the command line says of a field goes before what a file or the environment says.
Two runs that find different values of that field below the command line are the same,
as long as the values are valid: a configuration is validated as a whole before anything
of it is overridden, and one that is not valid is reported.

* `Arguments.DifferOnlyIn` — two worlds in which the sources of a configuration differ in
  one field.
* `Arguments.Accepts` — what the sources say of a field is valid.
* `flag_overrides_lower_sources` — a field that the command line gives is taken from
  nowhere else.
* `overridden_value_matters` — three ways in which an overridden value makes a difference.
-/

namespace ContractAdmission

/-- Outcomes with the same error, or with related values. -/
inductive SameBut {ε α : Type} (related : α → α → Prop) : Except ε α → Except ε α → Prop
  | error (error : ε) : SameBut related (.error error) (.error error)
  | ok {first second : α} (h : related first second) : SameBut related (.ok first) (.ok second)

theorem SameBut.refl {ε α : Type} {related : α → α → Prop} (h : ∀ value, related value value)
    (outcome : Except ε α) : SameBut related outcome outcome := by
  cases outcome with
  | error error => exact .error error
  | ok value => exact .ok (h value)

/-- Related values stay related where related results are computed from them. -/
theorem SameBut.bind {ε α β : Type} {related : α → α → Prop} {related' : β → β → Prop}
    {first second : Except ε α} {f g : α → Except ε β} (h : SameBut related first second)
    (hstep : ∀ a b, first = .ok a → second = .ok b → related a b → SameBut related' (f a) (g b)) :
    SameBut related' (first.bind f) (second.bind g) := by
  cases h with
  | error error => exact .error error
  | ok hrelated => exact hstep _ _ rfl rfl hrelated

theorem SameBut.mapError {ε δ α : Type} {related : α → α → Prop} {first second : Except ε α}
    (f : ε → δ) (h : SameBut related first second) :
    SameBut related (first.mapError f) (second.mapError f) := by
  cases h with
  | error error => exact .error (f error)
  | ok hrelated => exact .ok hrelated

namespace Settings

variable {key other : String} {first second : Settings}

/-- Settings that are the same but for what one key is set to. -/
def AgreeBut (key : String) (first second : Settings) : Prop :=
  (first.filter fun entry => entry.1 ≠ key) = second.filter fun entry => entry.1 ≠ key

theorem AgreeBut.refl (key : String) (settings : Settings) : AgreeBut key settings settings :=
  rfl

/-- Leaving out a key does not change what another is set to. -/
theorem get?_filter_of_ne (settings : Settings) (h : other ≠ key) :
    get? (settings.filter fun entry => entry.1 ≠ key) other = settings.get? other := by
  induction settings with
  | nil => rfl
  | cons entry rest ih =>
      obtain ⟨name, value⟩ := entry
      by_cases hname : name = key
      -- An entry that is left out is not the one that is looked up.
      · have hother : (other == name) = false := by simpa [hname] using h
        rw [List.filter_cons_of_neg (by simpa using hname), ih]
        simp [get?, List.lookup_cons, hother]
      · rw [List.filter_cons_of_pos (by simpa using hname)]
        simp only [get?, List.lookup_cons] at ih ⊢
        rw [ih]

/-- Settings that agree but for one key set the others to the same. -/
theorem AgreeBut.get?_eq (h : AgreeBut key first second) (hother : other ≠ key) :
    first.get? other = second.get? other := by
  rw [← get?_filter_of_ne first hother, h, get?_filter_of_ne second hother]

end Settings

theorem Field.key_ne {field other : Field} (h : other ≠ field) : other.key ≠ field.key := by
  revert h
  cases field <;> cases other <;> decide

theorem Field.key_mem_keys (field : Field) : field.key ∈ Field.keys :=
  List.mem_map_of_mem field.mem_all

namespace Environment

/-- What the environment says of a field. -/
def textOf (environment : Environment) : Field → Option String
  | .hostVersion => environment.hostVersion
  | .policyName => environment.policyName
  | .capabilities => environment.capabilities

/-- Environments that say the same of every field but one. -/
def AgreeBut (field : Field) (first second : Environment) : Prop :=
  ∀ other, other ≠ field → first.textOf other = second.textOf other

/-- There are few fields to compare. -/
theorem agreeBut_iff {field : Field} {first second : Environment} :
    AgreeBut field first second ↔
      ∀ other ∈ Field.all, other ≠ field → first.textOf other = second.textOf other :=
  ⟨fun h other _ => h other, fun h other => h other other.mem_all⟩

/-- What the environment sets a field to depends on what it says of that field. -/
theorem setting_eq_of_textOf {first second : Environment} {field : Field}
    (h : first.textOf field = second.textOf field) :
    first.setting field = second.setting field := by
  cases field with
  | hostVersion =>
      have hsame : first.hostVersion = second.hostVersion := h
      simp only [setting, hostVersionOrDefault, hsame]
  | policyName =>
      have hsame : first.policyName = second.policyName := h
      simp only [setting, policyNameOrDefault, hsame]
  | capabilities =>
      have hsame : first.capabilities = second.capabilities := h
      simp only [setting, capabilitiesOrDefault, hsame]

end Environment

namespace Config

variable {field : Field} {environment environment' : Environment} {settings settings' : Settings}

/-- Configurations that are the same but for one field. -/
structure AgreeBut (field : Field) (first second : Config) : Prop where
  hostVersion : field ≠ .hostVersion → first.hostVersion = second.hostVersion
  policyName : field ≠ .policyName → first.policyName = second.policyName
  capabilities : field ≠ .capabilities → first.capabilities = second.capabilities

/-- Sources that agree but for one field set the others to the same. -/
theorem effective_eq {other : Field} (hsaid : Environment.AgreeBut field environment environment')
    (hset : Settings.AgreeBut field.key settings settings') (hother : other ≠ field) :
    effective environment settings other = effective environment' settings' other := by
  unfold effective
  rw [hset.get?_eq (Field.key_ne hother), Environment.setting_eq_of_textOf (hsaid other hother)]

/-- An expected key makes no difference to those that are not expected. -/
theorem unexpectedKeys_filter {key : String} (settings : Settings) (h : key ∈ Field.keys) :
    unexpectedKeys (settings.filter fun entry => entry.1 ≠ key) = unexpectedKeys settings := by
  induction settings with
  | nil => rfl
  | cons entry rest ih =>
      by_cases hname : entry.1 = key
      · rw [List.filter_cons_of_neg (by simpa using hname), ih]
        simp [unexpectedKeys, hname, h]
      · rw [List.filter_cons_of_pos (by simpa using hname)]
        simp only [unexpectedKeys, List.map_cons, List.filter_cons] at ih ⊢
        rw [ih]

/-- Sources that agree but for one field, of which they say something valid, have the same
violations. -/
theorem violations_eq (hsaid : Environment.AgreeBut field environment environment')
    (hset : Settings.AgreeBut field.key settings settings')
    (hvalid : field.Allows (effective environment settings field))
    (hvalid' : field.Allows (effective environment' settings' field)) :
    violations environment settings = violations environment' settings' := by
  -- The field itself has no violations on either side, and the others are set to the same.
  have hfields : ∀ other, fieldViolations other (effective environment settings other) =
      fieldViolations other (effective environment' settings' other) := by
    intro other
    by_cases hother : other = field
    · subst hother
      rw [fieldViolations_eq_nil_iff.2 hvalid, fieldViolations_eq_nil_iff.2 hvalid']
    · rw [effective_eq hsaid hset hother]
  have hkeys : unexpectedKeys settings = unexpectedKeys settings' := by
    rw [← unexpectedKeys_filter settings field.key_mem_keys, hset,
      unexpectedKeys_filter settings' field.key_mem_keys]
  simp only [violations, hfields, hkeys]

/-- Sources that agree but for one field, of which they say something valid, make
configurations that agree but for it, or have the same violations. -/
theorem ofSettings_sameBut (hsaid : Environment.AgreeBut field environment environment')
    (hset : Settings.AgreeBut field.key settings settings')
    (hvalid : field.Allows (effective environment settings field))
    (hvalid' : field.Allows (effective environment' settings' field)) :
    SameBut (AgreeBut field) (ofSettings environment settings)
      (ofSettings environment' settings') := by
  have hsame := violations_eq hsaid hset hvalid hvalid'
  unfold ofSettings
  rw [← hsame]
  cases violations environment settings with
  | nil =>
      -- Each component is read from its own field, so only that of the field can differ.
      refine .ok ⟨?_, ?_, ?_⟩
      · intro hfield
        simp only [effective_eq hsaid hset hfield.symm]
      · intro hfield
        simp only [effective_eq hsaid hset hfield.symm]
      · intro hfield
        simp only [effective_eq hsaid hset hfield.symm]
  | cons violation rest => exact .error _

theorem length_pos_of_error {found : List Violation}
    (h : ofSettings environment settings = .error found) : 0 < found.length := by
  unfold ofSettings at h
  split at h
  · cases h
  · rename_i hsome
    cases h
    exact List.length_pos_of_ne_nil hsome

end Config

/-- What stands at the path of a configuration is the same, or files with documents that
make settings which agree but for one key. -/
inductive Found.AgreeBut (key : String) : Found → Found → Prop
  | same (found : Found) : AgreeBut key found found
  | documents {bytes bytes' : Bytes} {settings settings' : Settings}
      (hsettings : Yaml.Document.settingsOfBytes bytes = .ok settings)
      (hsettings' : Yaml.Document.settingsOfBytes bytes' = .ok settings')
      (hagree : Settings.AgreeBut key settings settings') :
      AgreeBut key (.file bytes) (.file bytes')

theorem Settings.filter_eq_nil_of_single {key : String} {settings : Settings}
    (h : settings.map (·.1) = [key]) : (settings.filter fun entry => entry.1 ≠ key) = [] := by
  obtain ⟨entry, rest, rfl, hentry, hrest⟩ := List.map_eq_cons_iff.1 h
  obtain rfl := List.map_eq_nil_iff.1 hrest
  simp [hentry]

/-- Documents that set one key and no other make settings which agree but for it. -/
theorem Found.agreeBut_of_single {key : String} {bytes bytes' : Bytes}
    (h : (Yaml.Document.settingsOfBytes bytes).map (·.map (·.1)) = .ok [key])
    (h' : (Yaml.Document.settingsOfBytes bytes').map (·.map (·.1)) = .ok [key]) :
    Found.AgreeBut key (.file bytes) (.file bytes') := by
  cases hsettings : Yaml.Document.settingsOfBytes bytes with
  | error error => simp [hsettings, Except.map] at h
  | ok settings =>
      cases hsettings' : Yaml.Document.settingsOfBytes bytes' with
      | error error => simp [hsettings', Except.map] at h'
      | ok settings' =>
          rw [hsettings] at h
          rw [hsettings'] at h'
          refine .documents hsettings hsettings' ?_
          unfold Settings.AgreeBut
          rw [Settings.filter_eq_nil_of_single (Except.ok.inj h),
            Settings.filter_eq_nil_of_single (Except.ok.inj h')]

/-- Paths at which much the same stands make much the same settings. -/
theorem Config.settingsOfFile_sameBut {key path : String} {disk disk' : Disk}
    (h : Found.AgreeBut key (disk.look path) (disk'.look path)) :
    SameBut (Settings.AgreeBut key) (settingsOfFile disk path) (settingsOfFile disk' path) := by
  unfold settingsOfFile
  generalize disk.look path = first at h
  generalize disk'.look path = second at h
  -- The path is the same on both sides, so it can be opened on both or on neither.
  cases h with
  | same found => exact SameBut.refl (Settings.AgreeBut.refl key) _
  | documents hsettings hsettings' hagree =>
      dsimp only
      split
      · exact .error _
      · split
        · exact .error _
        · rw [hsettings, hsettings']
          exact .ok hagree

namespace Cli.Arguments

variable {arguments : Arguments} {field : Field} {world world' : World}

/-- Worlds in which the sources of a configuration differ in no more than one field: in
what the environment says of it, and in what the file of the configuration sets it to. -/
structure DifferOnlyIn (arguments : Arguments) (field : Field) (world world' : World) :
    Prop where
  environment : Environment.AgreeBut field world.environment world'.environment
  file : arguments.configPath ≠ "" → Found.AgreeBut field.key
    (world.disk.look arguments.configPath) (world'.disk.look arguments.configPath)
  contract : world.disk.look arguments.path = world'.disk.look arguments.path
  fault : world.fault = world'.fault

/-- What the sources of a configuration say of a field is valid. -/
def Accepts (arguments : Arguments) (field : Field) (world : World) : Prop :=
  ∀ settings, arguments.settings world.disk = .ok settings →
    field.Allows (Config.effective world.environment settings field)

/-- Worlds that differ in one field have settings that agree but for it. -/
theorem settings_sameBut (h : arguments.DifferOnlyIn field world world') :
    SameBut (Settings.AgreeBut field.key) (arguments.settings world.disk)
      (arguments.settings world'.disk) := by
  unfold settings
  split
  · exact .ok rfl
  · rename_i hpath
    exact Config.settingsOfFile_sameBut (h.file hpath)

/-- Worlds that differ in one field, in a way that is valid, have configurations that agree
but for it. -/
theorem configuration_sameBut (h : arguments.DifferOnlyIn field world world')
    (hvalid : arguments.Accepts field world) (hvalid' : arguments.Accepts field world') :
    SameBut (Config.AgreeBut field) (arguments.configuration world)
      (arguments.configuration world') := by
  rw [configuration_eq_bind, configuration_eq_bind]
  refine (settings_sameBut h).bind ?_
  intro settings settings' hfound hfound' hagree
  exact (Config.ofSettings_sameBut h.environment hagree (hvalid settings hfound)
    (hvalid' settings' hfound')).mapError ConfigError.invalid

/-- Configurations that agree but for a field that arguments set make the same request. -/
theorem request?_eq_of_agreeBut {config config' : Config}
    (hset : arguments.options.sets field = true) (h : Config.AgreeBut field config config') :
    arguments.request? config = arguments.request? config' := by
  cases field with
  | hostVersion =>
      obtain ⟨version, hversion⟩ := Option.isSome_iff_exists.1 hset
      simp [request?, granted?, hversion, h.policyName, h.capabilities]
  | policyName =>
      obtain ⟨name, hname⟩ := Option.isSome_iff_exists.1 hset
      simp [request?, granted?, hname, h.hostVersion, h.capabilities]
  | capabilities =>
      obtain ⟨texts, htexts⟩ := Option.isSome_iff_exists.1 hset
      simp [request?, granted?, htexts, h.hostVersion, h.policyName]

theorem checkContract_eq (h : arguments.DifferOnlyIn field world world') (request : Request) :
    checkContract world.disk world.fault arguments.path request =
      checkContract world'.disk world'.fault arguments.path request := by
  unfold checkContract
  rw [h.contract, h.fault]

/-- Worlds that differ in one field that arguments set, in a way that is valid, leave the
same run. -/
theorem run_eq_of_differ (program : Program) (hset : arguments.options.sets field = true)
    (h : arguments.DifferOnlyIn field world world') (hvalid : arguments.Accepts field world)
    (hvalid' : arguments.Accepts field world') :
    arguments.run program world = arguments.run program world' := by
  have hcheck : arguments.check program world = arguments.check program world' := by
    have hconfig := configuration_sameBut h hvalid hvalid'
    unfold check
    generalize arguments.configuration world = first at hconfig
    generalize arguments.configuration world' = second at hconfig
    cases hconfig with
    | error error => rfl
    | ok hagree =>
        -- The configurations can still differ in the field; the request is where it drops out.
        dsimp only
        rw [request?_eq_of_agreeBut hset hagree]
        simp only [checkContract_eq h]
  unfold run
  rw [hcheck]

/-- Sources that make a configuration say something valid of every field. -/
theorem accepts_of_configuration {config : Config}
    (h : arguments.configuration world = .ok config) (field : Field) :
    arguments.Accepts field world := by
  obtain ⟨settings, hsettings, hmade⟩ := exists_settings_of_configuration h
  intro other hother
  rw [hsettings] at hother
  cases hother
  exact Config.allows_of_ofSettings hmade field

/-- Worlds with the same files that differ in what the environment says of a field. -/
theorem differOnlyIn_of_environment (arguments : Arguments)
    {environment environment' : Environment} (disk : Disk) (fault : Option ReadFault)
    (h : Environment.AgreeBut field environment environment') :
    arguments.DifferOnlyIn field ⟨disk, environment, fault⟩ ⟨disk, environment', fault⟩ where
  environment := h
  file _ := .same _
  contract := rfl
  fault := rfl

/-- What is not valid is reported, whatever else the arguments say. -/
theorem run_of_not_accepts (program : Program) (h : ¬ arguments.Accepts field world) :
    ∃ count, 0 < count ∧ arguments.run program world =
      { stdout := ""
        stderr := textOfLines ["ERROR:" ++ program.logger ++ ":Invalid configuration: " ++
          (toString count ++ (if count = 1 then " validation error" else " validation errors") ++
            " for ConfigModel")]
        ending := .exit 2 } := by
  unfold Accepts at h
  push Not at h
  obtain ⟨settings, hsettings, hinvalid⟩ := h
  cases hmade : Config.ofSettings world.environment settings with
  | ok config => exact absurd (Config.allows_of_ofSettings hmade field) hinvalid
  | error violations =>
      have hconfig : arguments.configuration world = .error (.invalid violations) := by
        rw [configuration_of_settings hsettings, hmade]
        rfl
      exact ⟨violations.length, Config.length_pos_of_error hmade,
        run_of_reported hconfig (ConfigError.message?_invalid violations)⟩

end Cli.Arguments

/-- **A flag overrides the lower sources of its field.**  Where a command line gives a
field, two worlds that differ only in what the environment and the file of the configuration
say of that field leave the same run: the same output, the same errors and the same ending.
This holds if what they say is valid in both; where it is not valid, a run reports that the
configuration is not, and ends with two, whatever the command line gives. -/
theorem flag_overrides_lower_sources (program : Cli.Program) {field : Field}
    {words : List String} {arguments : Cli.Arguments} {world world' : Cli.World}
    (hwords : Cli.Arguments.parse words = .ok arguments) (hgiven : Cli.Gives words field)
    (hdiffer : arguments.DifferOnlyIn field world world') :
    (arguments.Accepts field world → arguments.Accepts field world' →
      Cli.run program world words = Cli.run program world' words) ∧
    (¬ arguments.Accepts field world → ∃ count, 0 < count ∧ Cli.run program world words =
      { stdout := ""
        stderr := Cli.textOfLines ["ERROR:" ++ program.logger ++ ":Invalid configuration: " ++
          (toString count ++ (if count = 1 then " validation error" else " validation errors") ++
            " for ConfigModel")]
        ending := .exit 2 }) := by
  have hset := (Cli.Arguments.sets_iff_gives field hwords).2 hgiven
  rw [Cli.run_of_parse hwords, Cli.run_of_parse hwords]
  exact ⟨Cli.Arguments.run_eq_of_differ program hset hdiffer,
    Cli.Arguments.run_of_not_accepts program⟩

/-- A working directory with a contract that requires staking, and a configuration. -/
def stakingDirectory (config : String) : FileTree :=
  ⟨[(["a.wasm"], .file (Host.cosmwasm1.leastContract ["requires_staking"])),
    (["c.yaml"], .file (asciiBytes config))]⟩

/-- The world with that directory and an environment. -/
def stakingWorld (config : String) (environment : Environment) : Cli.World :=
  ⟨(stakingDirectory config).disk, environment, none⟩

/-- A command line that names a configuration and overrides its policy. -/
def policyWords : List String :=
  ["a.wasm", "--config", "c.yaml", "--capability-policy", "none"]

/-- What that command line asks for. -/
def policyArguments : Cli.Arguments :=
  ⟨"a.wasm", { config := some "c.yaml", policyName := some "none" }⟩

/-- The command line allows what the file of the first world refuses, and the environment of
the second names a policy that does not exist. -/
theorem flag_overrides_lower_sources_policy :
    Cli.Arguments.parse policyWords = .ok policyArguments ∧
      Cli.Gives policyWords .policyName ∧
      policyArguments.DifferOnlyIn .policyName
        (stakingWorld "capability_policy: requires_exports" {})
        (stakingWorld "capability_policy: none" { policyName := some "bogus" }) ∧
      Cli.run .command (stakingWorld "capability_policy: requires_exports" {}) policyWords =
        Cli.run .command (stakingWorld "capability_policy: none" { policyName := some "bogus" })
          policyWords := by
  have hwords : Cli.Arguments.parse policyWords = .ok policyArguments := by decide +kernel
  have hgiven := (Cli.Arguments.sets_iff_gives .policyName hwords).1 rfl
  have hdiffer : policyArguments.DifferOnlyIn .policyName
      (stakingWorld "capability_policy: requires_exports" {})
      (stakingWorld "capability_policy: none" { policyName := some "bogus" }) := by
    refine ⟨Environment.agreeBut_iff.2 (by decide), fun _ => ?_, by decide +kernel, rfl⟩
    exact Found.agreeBut_of_single (by decide +kernel) (by decide +kernel)
  have hconfig : policyArguments.configuration
      (stakingWorld "capability_policy: requires_exports" {}) =
        .ok ⟨"cosmwasm-1", "requires_exports", []⟩ := by decide +kernel
  have hconfig' : policyArguments.configuration
      (stakingWorld "capability_policy: none" { policyName := some "bogus" }) =
        .ok ⟨"cosmwasm-1", "none", []⟩ := by decide +kernel
  have hsame := flag_overrides_lower_sources .command hwords hgiven hdiffer
  exact ⟨hwords, hgiven, hdiffer,
    hsame.1 (Cli.Arguments.accepts_of_configuration hconfig _)
      (Cli.Arguments.accepts_of_configuration hconfig' _)⟩

/-- An overridden value makes a difference when it is not valid, when the last use of the
option has no value, and when the file that it stands in is the contract as well. -/
theorem overridden_value_matters :
    (Cli.Gives ["a.wasm", "--host-version", "cosmwasm-1"] .hostVersion ∧
      (∀ arguments, Cli.Arguments.DifferOnlyIn arguments .hostVersion
        (stakingWorld "" {}) (stakingWorld "" { hostVersion := some "cosmwasm-9" })) ∧
      Cli.run .command (stakingWorld "" {}) ["a.wasm", "--host-version", "cosmwasm-1"] ≠
        Cli.run .command (stakingWorld "" { hostVersion := some "cosmwasm-9" })
          ["a.wasm", "--host-version", "cosmwasm-1"]) ∧
    (Cli.Arguments.parse ["a.wasm", "--capability-policy=--"] = .ok ⟨"a.wasm", {}⟩ ∧
      (∀ arguments, Cli.Arguments.DifferOnlyIn arguments .policyName
        (stakingWorld "" {}) (stakingWorld "" { policyName := some "requires_exports" })) ∧
      Cli.run .command (stakingWorld "" {}) ["a.wasm", "--capability-policy=--"] ≠
        Cli.run .command (stakingWorld "" { policyName := some "requires_exports" })
          ["a.wasm", "--capability-policy=--"]) ∧
    (Cli.Gives ["c.yaml", "--config", "c.yaml", "-c", "x"] .capabilities ∧
      Found.AgreeBut Field.capabilities.key (.file (asciiBytes "capabilities: [a]"))
        (.file (asciiBytes "capabilities: [ab]")) ∧
      Cli.run .command (stakingWorld "capabilities: [a]" {})
          ["c.yaml", "--config", "c.yaml", "-c", "x"] ≠
        Cli.run .command (stakingWorld "capabilities: [ab]" {})
          ["c.yaml", "--config", "c.yaml", "-c", "x"]) := by
  refine ⟨⟨?_, ?_, ?_⟩, ⟨?_, ?_, ?_⟩, ⟨?_, ?_, ?_⟩⟩
  · exact ⟨⟨.hostVersion, some "cosmwasm-1"⟩, by decide +kernel, rfl⟩
  · intro arguments
    exact arguments.differOnlyIn_of_environment _ _ (Environment.agreeBut_iff.2 (by decide))
  · decide +kernel
  · decide +kernel
  · intro arguments
    exact arguments.differOnlyIn_of_environment _ _ (Environment.agreeBut_iff.2 (by decide))
  · decide +kernel
  · exact ⟨⟨.capabilities, some "x"⟩, by decide +kernel, rfl⟩
  · exact Found.agreeBut_of_single (by decide +kernel) (by decide +kernel)
  · decide +kernel

end ContractAdmission
