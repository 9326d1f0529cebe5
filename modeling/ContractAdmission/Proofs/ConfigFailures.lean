import ContractAdmission.Proofs.ContractFailures

/-!
# What goes wrong with a configuration

A run reports that its configuration is not valid when the file is missing, when its
bytes are no text, when one of its values does not exist, or when its settings are not
valid.  Every other error escapes: those of a document that is malformed or no mapping,
and those of a path that cannot be opened although a file stands there.

* `Config.Settled` — a configuration was read, or its error has a text that reports it.
* `Config.Manageable` — the files with which a run can cope.
* `config_failures_reported_iff` — a configuration is settled exactly when its file is
  manageable, and a run reports every error of a configuration that is settled.
* `unclosed_list_not_reported` — a list without its end escapes.
-/

namespace ContractAdmission

namespace ConfigError

@[simp] theorem message?_notFile (path : String) :
    (notFile path).message? = some (notFileMessage path) := rfl

@[simp] theorem message?_invalid (violations : List Violation) :
    (invalid violations).message? = some (countMessage violations.length) := rfl

@[simp] theorem message?_unaskable : unaskable.message? = none := rfl

@[simp] theorem message?_notDirectory : notDirectory.message? = none := rfl

/-- The errors of a document that have a text are those of its bytes and of its values. -/
theorem message?_document_ne_none_iff {error : Yaml.DocumentError} :
    (document error).message? ≠ none ↔
      error = .fault .undecodable ∨ error = .fault .impossibleValue := by
  cases error with
  | notSettings => decide
  | fault fault => cases fault <;> decide

end ConfigError

namespace Config

/-- A configuration was read, or it has an error with a text that reports it. -/
def Settled (outcome : Except ConfigError Config) : Prop :=
  (∃ config, outcome = .ok config) ∨
    ∃ error message, outcome = .error error ∧ error.message? = some message

@[simp] theorem settled_ok (config : Config) : Settled (.ok config) :=
  Or.inl ⟨config, rfl⟩

@[simp] theorem settled_error_iff {error : ConfigError} :
    Settled (.error error) ↔ error.message? ≠ none := by
  constructor
  · rintro (⟨config, h⟩ | ⟨other, message, h, hmessage⟩)
    · cases h
    · cases h
      simp [hmessage]
  · intro h
    obtain ⟨message, hmessage⟩ := Option.ne_none_iff_exists'.1 h
    exact Or.inr ⟨error, message, rfl, hmessage⟩

/-- A document with which a run can cope: it makes settings, is no text, or has a value
that does not exist. -/
def ManageableDocument (bytes : Bytes) : Prop :=
  ∀ error, Yaml.Document.settingsOfBytes bytes = .error error →
    error = .fault .undecodable ∨ error = .fault .impossibleValue

/-- A file of a configuration with which a run can cope: its path can be asked for, and
if a file stands there it can be opened under the path as it is given and has a document
with which a run can cope. -/
structure Manageable (disk : Disk) (path : String) : Prop where
  askable : disk.look path ≠ .unaskable
  shortText : ∀ bytes, disk.look path = .file bytes → path.utf8ByteSize ≤ maxPathBytes
  namesFile : ∀ bytes, disk.look path = .file bytes → Path.namesDirectory path = false
  document : ∀ bytes, disk.look path = .file bytes → ManageableDocument bytes

/-- What a document makes is settled exactly when a run can cope with the document. -/
theorem settled_ofBytes_iff {environment : Environment} {bytes : Bytes} :
    Settled (ofBytes environment bytes) ↔ ManageableDocument bytes := by
  unfold ManageableDocument ofBytes
  cases Yaml.Document.settingsOfBytes bytes with
  | error error =>
      rw [settled_error_iff, ConfigError.message?_document_ne_none_iff]
      simp only [Except.error.injEq, forall_eq']
  | ok settings =>
      dsimp only
      cases ofSettings environment settings with
      | error violations => simp
      | ok config => simp

/-- Where no file stands, a run can cope if the path can be asked for. -/
theorem manageable_of_no_file {disk : Disk} {path : String}
    (haskable : disk.look path ≠ .unaskable)
    (hnone : ∀ bytes, disk.look path ≠ .file bytes) : Manageable disk path where
  askable := haskable
  shortText bytes hfile := absurd hfile (hnone bytes)
  namesFile bytes hfile := absurd hfile (hnone bytes)
  document bytes hfile := absurd hfile (hnone bytes)

/-- What a file makes is settled exactly when a run can cope with the file. -/
theorem settled_ofFile_iff {disk : Disk} {environment : Environment} {path : String} :
    Settled (ofFile disk environment path) ↔ Manageable disk path := by
  cases hlook : disk.look path with
  | unaskable =>
      have hnot : ¬ Manageable disk path := fun h => h.askable hlook
      simp [ofFile, hlook, hnot]
  | absent =>
      have hmanageable : Manageable disk path :=
        manageable_of_no_file (by simp [hlook]) (by simp [hlook])
      simp [ofFile, hlook, hmanageable]
  | directory =>
      have hmanageable : Manageable disk path :=
        manageable_of_no_file (by simp [hlook]) (by simp [hlook])
      simp [ofFile, hlook, hmanageable]
  | file bytes =>
      -- A file stands there, but it is opened under the text of the path as it is given.
      by_cases hlong : maxPathBytes < path.utf8ByteSize
      · have hnot : ¬ Manageable disk path := by
          intro h
          have := h.shortText bytes hlook
          omega
        simp [ofFile, hlook, hlong, hnot]
      · cases hdirectory : Path.namesDirectory path with
        | true =>
            have hnot : ¬ Manageable disk path := by
              intro h
              have := h.namesFile bytes hlook
              rw [hdirectory] at this
              cases this
            simp [ofFile, hlook, hlong, hdirectory, hnot]
        | false =>
            have hfile : ofFile disk environment path = ofBytes environment bytes := by
              simp [ofFile, hlook, hlong, hdirectory]
            rw [hfile, settled_ofBytes_iff]
            constructor
            · intro hdocument
              refine ⟨by simp [hlook], fun _ _ => by omega, fun _ _ => hdirectory, ?_⟩
              intro other hother
              rw [hlook] at hother
              cases hother
              exact hdocument
            · intro h
              exact h.document bytes hlook

end Config

namespace Cli
namespace Arguments

/-- Without a file the configuration is settled; with a file this depends on the file. -/
theorem settled_configuration_iff {arguments : Arguments} {world : World} :
    Config.Settled (arguments.configuration world) ↔
      (arguments.configPath = "" ∨ Config.Manageable world.disk arguments.configPath) := by
  by_cases hpath : arguments.configPath = ""
  · rw [configuration_of_no_path world hpath]
    cases Config.ofEnvironment world.environment with
    | ok config => simp [Except.mapError, hpath]
    | error violations => simp [Except.mapError, hpath]
  · rw [configuration_of_path world hpath, Config.settled_ofFile_iff]
    simp [hpath]

/-- What a run leaves whose configuration has an error that is reported. -/
theorem run_of_reported {arguments : Arguments} {program : Program} {world : World}
    {error : ConfigError} {message : String}
    (hconfig : arguments.configuration world = .error error)
    (hmessage : error.message? = some message) :
    arguments.run program world =
      { stdout := ""
        stderr := textOfLines
          ["ERROR:" ++ program.logger ++ ":Invalid configuration: " ++ message]
        ending := .exit 2 } := by
  have hcheck : arguments.check program world =
      ⟨[errorRecord program ("Invalid configuration: " ++ message)], .ok none⟩ := by
    simp [check, hconfig, hmessage]
  have hline : (errorRecord program ("Invalid configuration: " ++ message)).line =
      "ERROR:" ++ program.logger ++ ":Invalid configuration: " ++ message := by
    rw [← String.toList_inj]
    simp [errorRecord, Record.line, Level.label, Source.label]
  have hvisible : ∀ text, arguments.options.visible [errorRecord program text] =
      [errorRecord program text] := fun _ => rfl
  simp only [run, hcheck, hvisible, List.map_cons, List.map_nil, hline]
  rfl

/-- The errors of a configuration that escape a run are those without a text. -/
theorem escape_config_iff {program : Program} {world : World} {words : List String}
    {arguments : Arguments} {error : ConfigError} (hwords : parse words = .ok arguments) :
    (arguments.run program world).ending = .escape (.config error) ↔
      arguments.configuration world = .error error ∧ error.message? = none := by
  cases hconfig : arguments.configuration world with
  | ok config =>
      -- None of the three endings is an error of the configuration.
      rcases ending_of_configuration program hwords hconfig with
        ⟨-, hending⟩ | ⟨-, -, hending⟩ | ⟨-, -, verdict, hending⟩
      · simp [hending]
      · simp [hending]
      · simp [hending]
  | error found =>
      cases hmessage : found.message? with
      | none =>
          have hending : (arguments.run program world).ending = .escape (.config found) := by
            simp [run, check, hconfig, hmessage]
          rw [hending]
          constructor
          · intro h
            cases h
            exact ⟨rfl, hmessage⟩
          · rintro ⟨h, -⟩
            cases h
            rfl
      | some message =>
          rw [run_of_reported hconfig hmessage]
          constructor
          · intro h
            cases h
          · rintro ⟨h, hnone⟩
            cases h
            rw [hmessage] at hnone
            cases hnone

end Arguments
end Cli

/-- **Failures of a configuration are reported, unless a run cannot cope with the file.**

A file makes a configuration, or has an error with a text that reports it, exactly when
it is manageable.  No error of a configuration escapes a run with an accepted command
line exactly when no file is named or the file that is named is manageable; then a
configuration that cannot be had is reported, and the run ends with two. -/
theorem config_failures_reported_iff (program : Cli.Program) (world : Cli.World) :
    (∀ path : String, Config.Settled (Config.ofFile world.disk world.environment path) ↔
      Config.Manageable world.disk path) ∧
    (∀ (words : List String) (arguments : Cli.Arguments),
      Cli.Arguments.parse words = .ok arguments →
        ((∀ error, (Cli.run program world words).ending ≠ .escape (.config error)) ↔
          (arguments.configPath = "" ∨
            Config.Manageable world.disk arguments.configPath)) ∧
        (∀ error, arguments.configuration world = .error error →
          (arguments.configPath = "" ∨
            Config.Manageable world.disk arguments.configPath) →
          ∃ message, Cli.run program world words =
            { stdout := ""
              stderr := Cli.textOfLines
                ["ERROR:" ++ program.logger ++ ":Invalid configuration: " ++ message]
              ending := .exit 2 })) := by
  refine ⟨fun path => Config.settled_ofFile_iff, ?_⟩
  intro words arguments hwords
  rw [Cli.run_of_parse hwords, ← Cli.Arguments.settled_configuration_iff]
  constructor
  · cases hconfig : arguments.configuration world with
    | ok config => simp [Cli.Arguments.escape_config_iff hwords, hconfig]
    | error error => simp [Cli.Arguments.escape_config_iff hwords, hconfig]
  · intro error hconfig hsettled
    rw [hconfig, Config.settled_error_iff] at hsettled
    obtain ⟨message, hmessage⟩ := Option.ne_none_iff_exists'.1 hsettled
    exact ⟨message, Cli.Arguments.run_of_reported hconfig hmessage⟩

/-- A configuration file that is not there is reported. -/
theorem config_failures_reported_absent :
    Cli.Arguments.parse ["a.wasm", "--config", "c.yaml"] =
        .ok ⟨"a.wasm", { config := some "c.yaml" }⟩ ∧
      ∃ message, Cli.run .command ⟨textDirectory.disk, {}, none⟩
          ["a.wasm", "--config", "c.yaml"] =
        { stdout := ""
          stderr := Cli.textOfLines
            ["ERROR:" ++ Cli.Program.command.logger ++ ":Invalid configuration: " ++ message]
          ending := .exit 2 } := by
  have hwords : Cli.Arguments.parse ["a.wasm", "--config", "c.yaml"] =
      .ok ⟨"a.wasm", { config := some "c.yaml" }⟩ := by decide +kernel
  have habsent : textDirectory.disk.look "c.yaml" = .absent := by decide +kernel
  have hconfig : (Cli.Arguments.mk "a.wasm" { config := some "c.yaml" }).configuration
      ⟨textDirectory.disk, {}, none⟩ = .error (.notFile "c.yaml") := by decide +kernel
  have hmanageable : Config.Manageable textDirectory.disk "c.yaml" :=
    Config.manageable_of_no_file (by simp [habsent]) (by simp [habsent])
  have hrun := (config_failures_reported_iff .command
    ⟨textDirectory.disk, {}, none⟩).2 ["a.wasm", "--config", "c.yaml"] _ hwords
  exact ⟨hwords, hrun.2 _ hconfig (Or.inr hmanageable)⟩

/-- A working directory with one file, a configuration with a list that has no end. -/
def unclosedDirectory : FileTree := ⟨[(["c.yaml"], .file [0x61, 0x3a, 0x20, 0x5b])]⟩

/-- A list without its end is no configuration, has no text that reports it, and escapes
a run. -/
theorem unclosed_list_not_reported :
    ¬ Config.Settled (Config.ofFile unclosedDirectory.disk {} "c.yaml") ∧
      (Cli.run .command ⟨unclosedDirectory.disk, {}, none⟩
        ["a.wasm", "--config", "c.yaml"]).ending =
          .escape (.config (.document (.fault .structure))) := by
  have herror : Config.ofFile unclosedDirectory.disk {} "c.yaml" =
      .error (.document (.fault .structure)) := by
    decide +kernel
  constructor
  · rw [herror, Config.settled_error_iff]
    intro hreported
    exact hreported rfl
  · decide +kernel

end ContractAdmission
