import ContractAdmission.Proofs.Precedence

/-!
# Defaults of a configuration

What settings leave out counts as if it had been written, with the value that the
environment gives to it: the configuration is the same, and so is everything that is
wrong with it.  What settings do say hides the environment.

* `Field.default` — the value that stands for a field which is left out.
* `Settings.completed` — settings with these values written into them.
* `completed_settings_agree` — writing the defaults changes nothing, and what is written
  is taken from nowhere else.
-/

namespace ContractAdmission

/-- The value of a field that settings leave out.  The capabilities of the environment are
listed in increasing order. -/
def Field.default (environment : Environment) : Field → Setting
  | .hostVersion => .text (environment.hostVersion.getD "cosmwasm-1")
  | .policyName => .text (environment.policyName.getD "none")
  | .capabilities =>
      .list ((CapabilitySet.parse [environment.capabilities.getD ""]).toList.map .text)

/-- Settings with the defaults of the fields that they leave out. -/
def Settings.completed (environment : Environment) (settings : Settings) : Settings :=
  settings ++ (Field.all.filter fun field => (settings.get? field.key).isNone).map fun field =>
    (field.key, field.default environment)

theorem Environment.setting_eq_default (environment : Environment) (field : Field) :
    environment.setting field = field.default environment := by
  cases field <;> rfl

/-- Among fields with their keys every field is found under its own. -/
theorem Field.lookup_key {α : Type} (value : Field → α) {fields : List Field} {field : Field}
    (h : field ∈ fields) :
    (fields.map fun field => (field.key, value field)).lookup field.key = some (value field) := by
  induction fields with
  | nil => cases h
  | cons first rest ih =>
      rw [List.map_cons, List.lookup_cons]
      by_cases hfirst : field = first
      · simp [hfirst]
      · have hkey : (field.key == first.key) = false := by simpa using Field.key_ne hfirst
        have hrest : field ∈ rest := by simpa [hfirst] using h
        rw [hkey]
        exact ih hrest

namespace Settings

variable (environment : Environment) (settings : Settings)

/-- Completed settings set every field, to what is effective of it. -/
theorem get?_completed (field : Field) :
    (settings.completed environment).get? field.key =
      some (Config.effective environment settings field) := by
  unfold completed Config.effective get?
  rw [List.lookup_append, environment.setting_eq_default]
  cases hset : settings.lookup field.key with
  | some value => rfl
  | none =>
      -- The field is among those that are left out, so its default is appended.
      have hleft : field ∈ Field.all.filter fun field => (settings.get? field.key).isNone :=
        List.mem_filter.2 ⟨field.mem_all, by rw [get?, hset]; rfl⟩
      rw [Option.none_or]
      exact Field.lookup_key (fun field => field.default environment) hleft

/-- Whatever the environment says, what is effective of completed settings is what was
effective before. -/
theorem effective_completed (other : Environment) (field : Field) :
    Config.effective other (settings.completed environment) field =
      Config.effective environment settings field := by
  rw [Config.effective, get?_completed, Option.getD_some]

/-- Defaults are values of fields, so none of them is unexpected. -/
theorem unexpectedKeys_completed :
    Config.unexpectedKeys (settings.completed environment) = Config.unexpectedKeys settings := by
  unfold Config.unexpectedKeys completed
  rw [List.map_append, List.filter_append]
  refine List.append_right_eq_self.2 (List.filter_eq_nil_iff.2 ?_)
  simp only [List.map_map, List.mem_map, Function.comp_apply]
  rintro key ⟨field, -, rfl⟩
  simpa using field.key_mem_keys

/-- Completed settings make the configuration that was made before, or have everything
wrong that was wrong before. -/
theorem ofSettings_completed (other : Environment) :
    Config.ofSettings other (settings.completed environment) =
      Config.ofSettings environment settings := by
  have hviolations : Config.violations other (settings.completed environment) =
      Config.violations environment settings := by
    simp only [Config.violations, effective_completed, unexpectedKeys_completed]
  simp only [Config.ofSettings, hviolations, effective_completed]

end Settings

/-- A field that settings have is the same whatever the environment says of it. -/
theorem Config.effective_eq_of_set {settings : Settings} {field : Field}
    {environment environment' : Environment} (hset : (settings.get? field.key).isSome)
    (hagree : Environment.AgreeBut field environment environment') (other : Field) :
    effective environment settings other = effective environment' settings other := by
  unfold effective
  by_cases hother : other = field
  · subst hother
    obtain ⟨value, hvalue⟩ := Option.isSome_iff_exists.1 hset
    rw [hvalue, Option.getD_some, Option.getD_some]
  · rw [Environment.setting_eq_of_textOf (hagree other hother)]

/-- **Defaults count as written, and what is written hides the environment.**

Settings make the same configuration, or the same violations in the same order, as with the
values of the environment written for every field that they leave out; and these make it in
any environment.  Hence a file whose document sets the key of a field, to anything, gives the
same outcome in environments that differ in what they say of that field. -/
theorem completed_settings_agree :
    (∀ (environment other : Environment) (settings : Settings),
      Config.ofSettings environment settings =
        Config.ofSettings other (settings.completed environment)) ∧
    (∀ (disk : Disk) (path : String) (bytes : Bytes) (settings : Settings) (field : Field)
        (environment environment' : Environment),
      disk.look path = .file bytes → Yaml.Document.settingsOfBytes bytes = .ok settings →
      (settings.get? field.key).isSome → Environment.AgreeBut field environment environment' →
        Config.ofFile disk environment path = Config.ofFile disk environment' path) := by
  constructor
  · intro environment other settings
    exact (settings.ofSettings_completed environment other).symm
  · intro disk path bytes settings field environment environment' hfile hdocument hset hagree
    have hsame : Config.ofSettings environment settings =
        Config.ofSettings environment' settings := by
      -- The environment is read for what is effective of the fields, and nowhere else.
      have heffective := Config.effective_eq_of_set hset hagree
      simp only [Config.ofSettings, Config.violations, heffective]
    have hbytes : Config.ofBytes environment bytes = Config.ofBytes environment' bytes := by
      rw [Config.ofBytes, Config.ofBytes, hdocument]
      simp only [hsame]
    simp only [Config.ofFile, hfile, hbytes]

/-- A file that names an unknown host is refused for that, in an environment that names a
known one and in one that names another unknown one. -/
theorem completed_settings_agree_unknown :
    Config.ofFile (stakingDirectory "host_version: x").disk { hostVersion := some "cosmwasm-1" }
        "c.yaml" = .error (.invalid [.unknownHost "x"]) ∧
      Config.ofFile (stakingDirectory "host_version: x").disk { hostVersion := some "y" }
        "c.yaml" = .error (.invalid [.unknownHost "x"]) := by
  have hfirst : Config.ofFile (stakingDirectory "host_version: x").disk
      { hostVersion := some "cosmwasm-1" } "c.yaml" = .error (.invalid [.unknownHost "x"]) := by
    decide +kernel
  have hdocument : (Yaml.Document.settingsOfBytes (asciiBytes "host_version: x")).map
      (fun settings => (settings.get? Field.hostVersion.key).isSome) = .ok true := by
    decide +kernel
  cases hsettings : Yaml.Document.settingsOfBytes (asciiBytes "host_version: x") with
  | error error =>
      rw [hsettings] at hdocument
      cases hdocument
  | ok settings =>
      rw [hsettings] at hdocument
      refine ⟨hfirst, ?_⟩
      rw [← hfirst]
      exact completed_settings_agree.2 _ _ _ _ .hostVersion _ _ (by decide +kernel) hsettings
        (Except.ok.inj hdocument) (Environment.agreeBut_iff.2 (by decide))

end ContractAdmission
