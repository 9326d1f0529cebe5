import ContractAdmission.Proofs.Validation
import ContractAdmission.Proofs.Yaml.ObjectSettings

/-!
# A printed configuration is a configuration file

What is shown of a configuration is JSON text, and the file of a configuration is a document.  The
text of a configuration that was validated is a document that sets all three fields to what the
configuration holds; so reading it gives the same configuration, whatever the environment says.

The capabilities can be of any characters from NUL to the tilde: they stand in double quotes, so
none of them is taken for a mark of the document, for a number, a date, a truth value or nothing.

* `Config.quoted_toJson` — the JSON value of a validated configuration is one of such strings.
* `Config.settingsOfBytes_render` — the settings that the printed text makes.
* `printed_config_reads_back` — reading the file gives the configuration.
-/

namespace ContractAdmission

namespace Json

theorem quotedItems_map_string {texts : List String} (h : ∀ text ∈ texts, Ascii text) :
    QuotedItems (texts.map .string) := by
  induction texts with
  | nil => exact True.intro
  | cons text texts ih =>
      obtain ⟨htext, hrest⟩ := List.forall_mem_cons.1 h
      exact ⟨htext, ih hrest⟩

theorem itemsDepth_map_string (texts : List String) : itemsDepth (texts.map .string) = 0 := by
  induction texts with
  | nil => rfl
  | cons text texts ih => rw [List.map_cons, itemsDepth, ih]; rfl

end Json

namespace Config

variable {config : Config}

/-- The members of the JSON value of a configuration. -/
def members (config : Config) : List (String × Json) :=
  [(Field.hostVersion.key, .string config.hostVersion),
    (Field.policyName.key, .string config.policyName),
    (Field.capabilities.key, .array (config.capabilities.map .string))]

theorem toJson_eq_object (config : Config) : config.toJson = .object config.members := rfl

/-- The settings that the members are. -/
theorem settings_members (config : Config) :
    Json.settings config.members = [(Field.hostVersion.key, .text config.hostVersion),
      (Field.policyName.key, .text config.policyName),
      (Field.capabilities.key, .list (config.capabilities.map .text))] := by
  simp [Json.settings, members, Json.setting, Json.itemSetting, Function.comp_def]

theorem quoted_toJson (hversion : config.hostVersion ∈ Host.knownVersions)
    (hpolicy : config.policyName ∈ Policy.knownNames)
    (hcapabilities : ∀ capability ∈ config.capabilities, Json.Ascii capability) :
    config.toJson.Quoted := by
  have hversions : ∀ version ∈ Host.knownVersions, Json.Ascii version := by decide
  have hnames : ∀ name ∈ Policy.knownNames, Json.Ascii name := by decide
  have hkeys : ∀ field : Field, Json.Ascii field.key ∧ (Json.quote field.key).length ≤ 1024 := by
    intro field
    cases field <;> decide
  exact ⟨hkeys _, hversions _ hversion, hkeys _, hnames _ hpolicy, hkeys _,
    Json.quotedItems_map_string hcapabilities, True.intro⟩

theorem depth_toJson (config : Config) : config.toJson.depth = 2 := by
  rw [toJson_eq_object]
  simp [members, Json.depth, Json.membersDepth, Json.itemsDepth_map_string]

/-- The settings that the printed text of a configuration makes, also where spaces and line ends
follow it. -/
theorem settingsOfBytes_render (h : config.toJson.Quoted) {blanks : String}
    (hblanks : ∀ c ∈ blanks.toList, c = ' ' ∨ c = '\n') :
    Yaml.Document.settingsOfBytes (config.render ++ blanks).toByteArray.data.toList =
      .ok (Json.settings config.members) := by
  have hkeys : (config.members.map (·.1)).Nodup := by
    show Field.keys.Nodup
    decide
  have hdepth : config.toJson.depth < Yaml.Parser.maxLevels := by
    rw [depth_toJson]
    decide
  have htext : config.render ++ blanks =
      String.ofList (config.toJson.indentedAt 0 ++ blanks.toList) := by
    rw [String.ofList_append, String.ofList_toList, render, Json.renderIndented]
  rw [toJson_eq_object] at h hdepth htext
  rw [htext]
  exact Yaml.Document.settingsOfBytes_indented h hdepth (List.cons_ne_nil _ _) hkeys hblanks

/-- The settings of a printed configuration make the configuration. -/
theorem ofSettings_members (environment : Environment)
    (hversion : config.hostVersion ∈ Host.knownVersions)
    (hpolicy : config.policyName ∈ Policy.knownNames) :
    ofSettings environment (Json.settings config.members) = .ok config := by
  have hkeys : ((Json.settings config.members).map (·.1)).Nodup := by
    rw [settings_members]
    show Field.keys.Nodup
    decide
  refine (ofSettings_eq_ok_iff hkeys).2 ?_
  rw [settings_members]
  exact {
    hostVersion := Or.inl (by simp)
    knownHost := hversion
    policyName := Or.inl (by simp)
    knownPolicy := hpolicy
    capabilities := Or.inl (by simp)
    expected := fun key hkey => by simpa [Field.key] using hkey }

end Config

/-- **A printed configuration is a configuration file for itself.**  Take a configuration that
was validated, whatever it was made from, with capabilities of any characters up to the tilde.
From a file with its printed text, and any spaces and line ends after it, the same configuration
is read: the same host version, the same policy and the same capabilities in the same order, under
any environment.  The path of the file is one that can be opened: it is not too long, and does not
end as only that of a directory can. -/
theorem printed_config_reads_back {made : Environment} {settings : Settings} {config : Config}
    (hmade : Config.ofSettings made settings = .ok config)
    (hascii : ∀ capability ∈ config.capabilities, ∀ c ∈ capability.toList, c.toNat ≤ 0x7e)
    (disk : Disk) (environment : Environment) {path blanks : String}
    (hblanks : ∀ c ∈ blanks.toList, c = ' ' ∨ c = '\n')
    (hfile : disk.look path = .file (config.render ++ blanks).toByteArray.data.toList)
    (hlength : path.utf8ByteSize ≤ maxPathBytes) (hname : Path.namesDirectory path = false) :
    Config.ofFile disk environment path = .ok config := by
  obtain ⟨hversion, hpolicy⟩ := Config.known_of_ofSettings hmade
  have hdocument := Config.settingsOfBytes_render
    (Config.quoted_toJson hversion hpolicy hascii) hblanks
  have hread := Config.ofSettings_members environment hversion hpolicy
  unfold Config.ofFile
  rw [hfile]
  simp only [Nat.not_lt.2 hlength, hname, if_false, Bool.false_eq_true]
  rw [Config.ofBytes, hdocument]
  simp only [hread]

/-- A configuration whose capabilities would mean something else without their quotes. -/
def awkwardConfig : Config :=
  { hostVersion := "cosmwasm-1"
    policyName := "requires_exports"
    capabilities := ["null", "", "\"", "\\", "- #: , \x00\n\x1f", "2001-01-01", "null"] }

/-- A working directory with the printed text of that configuration. -/
def awkwardDirectory : FileTree :=
  ⟨[(["c.yaml"], .file (awkwardConfig.render ++ " \n").toByteArray.data.toList)]⟩

/-- The configuration is read back although the environment says something else. -/
theorem printed_config_reads_back_awkward :
    Config.ofSettings {} (Json.settings awkwardConfig.members) = .ok awkwardConfig ∧
      Config.ofFile awkwardDirectory.disk { policyName := some "none" } "c.yaml" =
        .ok awkwardConfig := by
  have hmade : Config.ofSettings {} (Json.settings awkwardConfig.members) =
      .ok awkwardConfig := Config.ofSettings_members {} (by decide) (by decide)
  have hfile : awkwardDirectory.disk.look "c.yaml" =
      .file (awkwardConfig.render ++ " \n").toByteArray.data.toList := rfl
  have hascii : ∀ capability ∈ awkwardConfig.capabilities, Json.Ascii capability := by decide
  have hblanks : Yaml.Tokenizer.IsGap " \n".toList := by decide
  exact ⟨hmade, printed_config_reads_back hmade hascii _ _ hblanks hfile (by decide) (by decide)⟩

end ContractAdmission
