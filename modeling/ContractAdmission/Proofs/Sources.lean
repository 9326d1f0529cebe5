import ContractAdmission.Cli.Run

/-!
# The sources of a configuration

A configuration is made from the settings of a file, if one is named, and from the
environment.  Nothing of it is used unless all of it is valid.

* `Field.Allows` — the settings that are valid for a field.
* `Config.fieldViolations_eq_nil_iff` — nothing is wrong with these, and only with these.
* `Arguments.configuration_eq_bind` — settings come first, and the environment fills in
  what they leave open.
-/

namespace ContractAdmission

/-- Every field is validated. -/
theorem Field.mem_all (field : Field) : field ∈ Field.all := by
  cases field <;> decide

/-- The settings that are valid for a field: the name of a known host or policy, or a list
of texts. -/
def Field.Allows : Field → Setting → Prop
  | .hostVersion, setting => ∃ version ∈ Host.knownVersions, setting = .text version
  | .policyName, setting => ∃ name ∈ Policy.knownNames, setting = .text name
  | .capabilities, setting => ∃ texts : List String, setting = .list (texts.map .text)

namespace Config

theorem textViolations_eq_nil_iff {field : Field} {known : List String}
    {unknown : String → Violation} {setting : Setting} :
    textViolations field known unknown setting = [] ↔ ∃ text ∈ known, setting = .text text := by
  cases setting with
  | text text => simp [textViolations]
  | list items => simp [textViolations]
  | other => simp [textViolations]

theorem itemViolations_eq_nil_iff {index : Nat} {items : List Setting} :
    itemViolations index items = [] ↔ ∃ texts : List String, items = texts.map .text := by
  induction items generalizing index with
  | nil => simp [itemViolations]
  | cons item rest ih =>
      cases item with
      | text text =>
          rw [itemViolations, ih]
          constructor
          · rintro ⟨texts, rfl⟩
            exact ⟨text :: texts, rfl⟩
          · rintro ⟨_ | ⟨_, texts⟩, htexts⟩
            · cases htexts
            · exact ⟨texts, (List.cons.inj htexts).2⟩
      -- An item that is no text is a violation, and stands in no list of texts.
      | list items =>
          simp only [itemViolations, reduceCtorEq, false_iff, not_exists]
          rintro (_ | ⟨_, texts⟩) htexts <;> cases htexts
      | other =>
          simp only [itemViolations, reduceCtorEq, false_iff, not_exists]
          rintro (_ | ⟨_, texts⟩) htexts <;> cases htexts

/-- Nothing is wrong with a setting exactly when its field allows it. -/
theorem fieldViolations_eq_nil_iff {field : Field} {setting : Setting} :
    fieldViolations field setting = [] ↔ field.Allows setting := by
  cases field with
  | hostVersion => exact textViolations_eq_nil_iff
  | policyName => exact textViolations_eq_nil_iff
  | capabilities =>
      cases setting with
      | text text => simp [fieldViolations, Field.Allows]
      | list items =>
          simp only [fieldViolations, Field.Allows, Setting.list.injEq]
          exact itemViolations_eq_nil_iff
      | other => simp [fieldViolations, Field.Allows]

/-- Settings that make a configuration are valid for every field. -/
theorem allows_of_ofSettings {environment : Environment} {settings : Settings}
    {config : Config} (h : ofSettings environment settings = .ok config) (field : Field) :
    field.Allows (effective environment settings field) := by
  unfold ofSettings at h
  split at h
  · rename_i hnone
    -- There are no violations at all, so there are none of any single field.
    have hfields : ∀ field ∈ Field.all,
        fieldViolations field (effective environment settings field) = [] := by
      simpa [violations] using (List.append_eq_nil_iff.1 hnone).1
    exact fieldViolations_eq_nil_iff.1 (hfields field field.mem_all)
  · cases h

/-- The settings that the file at a path makes. -/
def settingsOfFile (disk : Disk) (path : String) : Except ConfigError Settings :=
  match disk.look path with
  | .unaskable => .error .unaskable
  | .directory | .absent => .error (.notFile path)
  | .file bytes =>
      if maxPathBytes < path.utf8ByteSize then .error .unaskable
      else if Path.namesDirectory path then .error .notDirectory
      else (Yaml.Document.settingsOfBytes bytes).mapError .document

theorem ofBytes_eq_bind (environment : Environment) (bytes : Bytes) :
    ofBytes environment bytes =
      ((Yaml.Document.settingsOfBytes bytes).mapError .document).bind fun settings =>
        (ofSettings environment settings).mapError .invalid := by
  unfold ofBytes
  cases Yaml.Document.settingsOfBytes bytes with
  | error error => rfl
  | ok settings =>
      change _ = (ofSettings environment settings).mapError ConfigError.invalid
      dsimp only
      cases ofSettings environment settings with
      | error violations => rfl
      | ok config => rfl

/-- A file makes settings, and these make the configuration. -/
theorem ofFile_eq_bind (disk : Disk) (environment : Environment) (path : String) :
    ofFile disk environment path = (settingsOfFile disk path).bind fun settings =>
      (ofSettings environment settings).mapError .invalid := by
  unfold ofFile settingsOfFile
  cases disk.look path with
  | unaskable => rfl
  | directory => rfl
  | absent => rfl
  | file bytes =>
      dsimp only
      by_cases hlong : maxPathBytes < path.utf8ByteSize
      · rw [if_pos hlong, if_pos hlong]
        rfl
      · rw [if_neg hlong, if_neg hlong]
        cases Path.namesDirectory path with
        | true => rfl
        | false => exact ofBytes_eq_bind environment bytes

end Config

namespace Cli.Arguments

/-- The path of the configuration file that arguments name; it is empty if they name
none. -/
def configPath (arguments : Arguments) : String :=
  arguments.options.config.getD ""

/-- The settings of the file that arguments name.  Without a file there are none. -/
def settings (arguments : Arguments) (disk : Disk) : Except ConfigError Settings :=
  if arguments.configPath = "" then .ok []
  else Config.settingsOfFile disk arguments.configPath

theorem configuration_of_no_path {arguments : Arguments} (world : World)
    (h : arguments.configPath = "") :
    arguments.configuration world =
      (Config.ofEnvironment world.environment).mapError .invalid :=
  if_pos h

theorem configuration_of_path {arguments : Arguments} (world : World)
    (h : arguments.configPath ≠ "") :
    arguments.configuration world =
      Config.ofFile world.disk world.environment arguments.configPath :=
  if_neg h

/-- A configuration is made from the settings of the file and the environment. -/
theorem configuration_eq_bind (arguments : Arguments) (world : World) :
    arguments.configuration world = (arguments.settings world.disk).bind fun settings =>
      (Config.ofSettings world.environment settings).mapError .invalid := by
  unfold settings
  by_cases hpath : arguments.configPath = ""
  · rw [configuration_of_no_path world hpath, if_pos hpath]
    rfl
  · rw [configuration_of_path world hpath, if_neg hpath]
    exact Config.ofFile_eq_bind world.disk world.environment _

/-- Settings that were had are validated. -/
theorem configuration_of_settings {arguments : Arguments} {world : World} {settings : Settings}
    (h : arguments.settings world.disk = .ok settings) :
    arguments.configuration world =
      (Config.ofSettings world.environment settings).mapError .invalid := by
  rw [configuration_eq_bind, h]
  rfl

/-- A configuration was made from settings, and these were validated. -/
theorem exists_settings_of_configuration {arguments : Arguments} {world : World}
    {config : Config} (h : arguments.configuration world = .ok config) :
    ∃ settings, arguments.settings world.disk = .ok settings ∧
      Config.ofSettings world.environment settings = .ok config := by
  cases hsettings : arguments.settings world.disk with
  | error error =>
      rw [configuration_eq_bind, hsettings] at h
      cases h
  | ok settings =>
      rw [configuration_of_settings hsettings] at h
      refine ⟨settings, rfl, ?_⟩
      cases hmade : Config.ofSettings world.environment settings with
      | error violations =>
          rw [hmade] at h
          cases h
      | ok made =>
          rw [hmade] at h
          cases h
          rfl

end Cli.Arguments
end ContractAdmission
