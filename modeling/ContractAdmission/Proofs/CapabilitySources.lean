import ContractAdmission.Proofs.AbstractInterface
import ContractAdmission.Proofs.CapabilityOptions
import ContractAdmission.Proofs.Precedence

/-!
# Three ways to name capabilities

Capabilities are named on the command line, in the environment, or in the file of a
configuration.  A text on the command line means what it means in the environment, however
it is divided at its commas, and a list in a file means what its names mean on the command
line.  Only the separator means nothing on the command line: there it stands for no text at
all, and a run that is given it as a value comes to no answer.

* `CapabilitySet.namesIn_intercalate` — the names in a text are those in its pieces.
* `CapabilitySet.IsName` — a name that is read as it stands.
* `Arguments.SameTask` — two runs that look for the same, but for the capabilities.
* `capability_sources_agree` — the three ways have the same outcome.
* `separator_is_no_capability` — the separator is a name in the environment alone.
-/

namespace ContractAdmission

/-! ### Names in texts -/

namespace Text

variable {p : Char → Bool}

/-- There is nothing to trim from a text that does not end in a character of the class. -/
theorem trimRight_eq_self {cs : List Char} (h : ∀ c, cs.getLast? = some c → p c = false) :
    trimRight p cs = cs := by
  induction cs with
  | nil => rfl
  | cons c rest ih =>
      cases rest with
      | nil => simp [trimRight, h c rfl]
      | cons next later =>
          have hrest : trimRight p (next :: later) = next :: later :=
            ih fun last hlast => h last (by rw [List.getLast?_cons_cons]; exact hlast)
          rw [trimRight, hrest]

theorem stripChars_eq_self {cs : List Char} (hfirst : ∀ c, cs.head? = some c → isBlank c = false)
    (hlast : ∀ c, cs.getLast? = some c → isBlank c = false) : stripChars cs = cs := by
  have hkept : cs.dropWhile isBlank = cs := by
    cases cs with
    | nil => rfl
    | cons c rest => exact List.dropWhile_cons_of_neg (by simp [hfirst c rfl])
  rw [stripChars, trim, hkept, trimRight_eq_self hlast]

end Text

namespace CapabilitySet

/-- Both sides of a comma are read on their own. -/
theorem namesIn_append_comma (first rest : String) :
    namesIn (first ++ "," ++ rest) = namesIn first ++ namesIn rest := by
  have hchars : (first ++ "," ++ rest).toList = first.toList ++ ',' :: rest.toList := by simp
  have hsplit : (first.toList ++ ',' :: rest.toList).splitOn ',' =
      first.toList.splitOn ',' ++ rest.toList.splitOn ',' :=
    List.splitOnP_append_cons _ _ (by simp)
  rw [namesIn, hchars, hsplit, List.map_append, List.filter_append]
  rfl

/-- The names in a text are those in its pieces. -/
theorem namesIn_intercalate {pieces : List String} (h : pieces ≠ []) :
    namesIn (",".intercalate pieces) = pieces.flatMap namesIn := by
  induction pieces with
  | nil => exact absurd rfl h
  | cons piece rest ih =>
      cases rest with
      | nil => simp
      | cons next later =>
          rw [String.intercalate_cons_cons, namesIn_append_comma, ih (List.cons_ne_nil _ _)]
          exact List.flatMap_cons.symm

/-- Texts name what one text names of which they are the pieces, whatever their order and
however often they come. -/
theorem parse_pieces {pieces texts : List String} (h : pieces ≠ [])
    (hsame : ∀ text, text ∈ texts ↔ text ∈ pieces) :
    parse texts = parse [",".intercalate pieces] := by
  refine eq_of_mem_iff fun name => ?_
  simp only [mem_parse, List.mem_singleton, exists_eq_left, namesIn_intercalate h,
    List.mem_flatMap, hsame]

/-- A set is that of its members. -/
theorem ofList_toList (set : CapabilitySet) : ofList set.toList = set :=
  eq_of_mem_iff fun _ => mem_ofList

/-- A name that is read as it stands: it is not empty, has no comma, and neither begins nor
ends with a blank. -/
structure IsName (name : String) : Prop where
  nonempty : name ≠ ""
  noComma : ',' ∉ name.toList
  first : ∀ c, name.toList.head? = some c → Text.isBlank c = false
  last : ∀ c, name.toList.getLast? = some c → Text.isBlank c = false

theorem IsName.namesIn_eq {name : String} (h : IsName name) : namesIn name = [name] := by
  have hsplit : name.toList.splitOn ',' = [name.toList] := by
    refine List.splitOnP_eq_singleton fun c hc => ?_
    rw [beq_eq_false_iff_ne]
    rintro rfl
    exact h.noComma hc
  simp [namesIn, hsplit, Text.stripChars_eq_self h.first h.last, h.nonempty]

/-- Texts that are names name themselves. -/
theorem parse_of_isName {texts names : List String} (hnames : ∀ name ∈ names, IsName name)
    (hsame : ∀ text, text ∈ texts ↔ text ∈ names) : parse texts = ofList names := by
  refine eq_of_mem_iff fun name => ?_
  rw [mem_parse, mem_ofList]
  constructor
  · rintro ⟨text, htext, hname⟩
    have hlisted := (hsame text).1 htext
    rw [(hnames text hlisted).namesIn_eq, List.mem_singleton] at hname
    rwa [hname]
  · intro hname
    refine ⟨name, (hsame name).2 hname, ?_⟩
    rw [(hnames name hname).namesIn_eq]
    exact List.mem_singleton_self name

end CapabilitySet

/-- Without a file the capabilities are those of the environment. -/
theorem Config.capabilities_of_ofEnvironment {environment : Environment} {config : Config}
    (h : ofEnvironment environment = .ok config) :
    config.capabilities = environment.capabilitiesOrDefault := by
  unfold ofEnvironment ofSettings at h
  split at h
  · cases h
    simp [effective, Settings.get?, Environment.setting, texts, Setting.text?,
      List.filterMap_map]
  · cases h

namespace Cli

/-! ### Runs -/

/-- A command line is another one with an option for the capabilities in each of some texts:
in front of it, or anywhere else before the separator, if it is accepted both with them and
without them. -/
def Grants (texts words plain : List String) : Prop :=
  words = texts.map grantWord ++ plain ∨
    (Inserted grantWord (· = separatorText) texts words plain ∧
      (∃ arguments, Arguments.parse words = .ok arguments) ∧
      ∃ arguments, Arguments.parse plain = .ok arguments)

/-- If a command line is accepted, then it names no capabilities, and no configuration. -/
def Unconfigured (words : List String) : Prop :=
  ∀ arguments, Arguments.parse words = .ok arguments →
    arguments.options.capabilities = none ∧ arguments.configPath = ""

/-- A command line with options for capabilities asks for what the one without them asks for,
and has their values. -/
theorem Grants.parse_eq {texts words plain : List String} (h : Grants texts words plain)
    (hnone : ∀ arguments, Arguments.parse plain = .ok arguments →
      arguments.options.capabilities = none) :
    Arguments.parse words =
      (Arguments.parse plain).map (Arguments.granting (texts.map grantValue)) := by
  rcases h with rfl | ⟨hinserted, ⟨arguments', hwords⟩, arguments, hplain⟩
  · exact Arguments.parse_grants_append texts plain
  · rw [hwords, hplain, Arguments.parse_of_inserted hinserted hplain (hnone _ hplain) hwords]
    rfl

/-- Where the command line without them is accepted, so is the one with them. -/
theorem Grants.parse_eq_ok {texts words plain : List String} {arguments : Arguments}
    (h : Grants texts words plain) (hplain : Arguments.parse plain = .ok arguments)
    (hnone : arguments.options.capabilities = none) :
    Arguments.parse words = .ok (arguments.granting (texts.map grantValue)) := by
  rw [h.parse_eq, hplain]
  · rfl
  · intro others hothers
    cases hplain.symm.trans hothers
    exact hnone

namespace Arguments

variable {arguments arguments' : Arguments} {world world' : World} {config config' : Config}

/-- Two runs that look for the same contract and ask the same of it, but for the
capabilities, and that answer in the same way. -/
structure SameTask (arguments arguments' : Arguments) (world world' : World)
    (config config' : Config) : Prop where
  configured : arguments.configuration world = .ok config
  configured' : arguments'.configuration world' = .ok config'
  path : arguments.path = arguments'.path
  contract : world.disk.look arguments.path = world'.disk.look arguments'.path
  fault : world.fault = world'.fault
  hostVersion : arguments.options.hostVersion.getD config.hostVersion =
    arguments'.options.hostVersion.getD config'.hostVersion
  policyName : arguments.options.policyName.getD config.policyName =
    arguments'.options.policyName.getD config'.policyName
  json : arguments.options.json = arguments'.options.json
  verbose : arguments.options.verbose = arguments'.options.verbose

/-- Such runs are the same if they grant the same. -/
theorem SameTask.run_eq (h : SameTask arguments arguments' world world' config config')
    (hgranted : arguments.granted? config = arguments'.granted? config') (program : Program) :
    arguments.run program world = arguments'.run program world' := by
  have hrequest : arguments.request? config = arguments'.request? config' := by
    rw [request?, request?, hgranted, h.hostVersion, h.policyName]
  have hcontract : ∀ request, checkContract world.disk world.fault arguments.path request =
      checkContract world'.disk world'.fault arguments'.path request := by
    intro request
    rw [checkContract, checkContract, h.contract, h.fault, h.path]
  have hcheck : arguments.check program world = arguments'.check program world' := by
    rw [check, check, h.configured, h.configured']
    simp only [hrequest, hcontract]
  have hline : arguments.verdictLine = arguments'.verdictLine := by
    funext verdict
    unfold verdictLine
    rw [h.json, h.path]
  have hvisible : arguments.options.visible = arguments'.options.visible := by
    funext records
    simp only [Options.visible, Options.shows, h.verbose]
  rw [run, run, hcheck, hline, hvisible]

/-- Values of the option for capabilities change nothing else that is asked for. -/
theorem exists_granting_eq (values : List (Option String)) (arguments : Arguments) :
    ∃ capabilities, arguments.granting values =
      { arguments with options := { arguments.options with capabilities := capabilities } } := by
  cases values with
  | nil => exact ⟨arguments.options.capabilities, rfl⟩
  | cons value rest => exact ⟨_, rfl⟩

theorem configuration_granting (values : List (Option String)) (arguments : Arguments)
    (world : World) :
    (arguments.granting values).configuration world = arguments.configuration world := by
  obtain ⟨capabilities, hsame⟩ := exists_granting_eq values arguments
  rw [hsame]
  rfl

/-- What is asked for with capabilities on the command line is the same task. -/
theorem SameTask.granting (h : SameTask arguments arguments' world world' config config')
    (values : List (Option String)) :
    SameTask (arguments.granting values) arguments' world world' config config' := by
  obtain ⟨capabilities, hsame⟩ := exists_granting_eq values arguments
  have hconfigured := (configuration_granting values arguments world).trans h.configured
  rw [hsame] at hconfigured ⊢
  exact ⟨hconfigured, h.configured', h.path, h.contract, h.fault, h.hostVersion, h.policyName,
    h.json, h.verbose⟩

theorem SameTask.symm (h : SameTask arguments arguments' world world' config config') :
    SameTask arguments' arguments world' world config' config :=
  ⟨h.configured', h.configured, h.path.symm, h.contract.symm, h.fault.symm, h.hostVersion.symm,
    h.policyName.symm, h.json.symm, h.verbose.symm⟩

/-- Runs without a configuration are the same if they have the same error. -/
theorem run_eq_of_configuration_error {error : ConfigError} (program : Program)
    (h : arguments.configuration world = .error error)
    (h' : arguments'.configuration world' = .error error) :
    arguments.run program world = arguments'.run program world' := by
  cases hmessage : error.message? with
  | none => simp [run, check, h, h', hmessage, Options.visible]
  | some message =>
      -- Such a record is written whatever the options are.
      simp [run, check, h, h', hmessage, Options.visible, Options.shows, errorRecord]

/-- Texts that grant capabilities grant those that they name, unless the separator is one of
them: then no request can be made. -/
theorem granted?_of_texts {texts : List String}
    (h : arguments.options.capabilities = some (texts.map grantValue)) (config : Config) :
    arguments.granted? config = if separatorText ∈ texts then none else some (.parse texts) := by
  unfold granted?
  rw [h]
  dsimp only
  split
  · -- A single value that is missing spoils them all.
    rename_i hseparator
    have hmissing : (texts.map grantValue).mapM id = none :=
      mapM_eq_none_iff.2 ⟨none, List.mem_map.2 ⟨_, hseparator, rfl⟩, rfl⟩
    rw [hmissing, Option.map_none]
  · rename_i hseparator
    have hgiven : texts.map grantValue = texts.map some :=
      List.map_congr_left fun text htext => grantValue_of_ne fun hsame => hseparator (hsame ▸ htext)
    have hall : (texts.map some).mapM id = some texts := by
      rw [mapM_eq_some_map (g := (·.getD "")) (by simp)]
      simp
    rw [hgiven, hall, Option.map_some]

theorem granted?_granting (hnone : arguments.options.capabilities = none) {texts : List String}
    (hsome : texts ≠ []) (config : Config) :
    (arguments.granting (texts.map grantValue)).granted? config =
      if separatorText ∈ texts then none else some (.parse texts) := by
  refine granted?_of_texts ?_ config
  obtain ⟨text, rest, rfl⟩ := List.exists_cons_of_ne_nil hsome
  simp [granting, Options.granting, hnone]

theorem granted?_of_none (hnone : arguments.options.capabilities = none) (config : Config) :
    arguments.granted? config = some (.ofList config.capabilities) := by
  unfold granted?
  rw [hnone]

/-- What the environment says of capabilities makes no difference to the other fields, and
nothing is ever wrong with it. -/
theorem configuration_sameBut_capabilities (hpath : arguments.configPath = "") (disk : Disk)
    (fault : Option ReadFault) (environment : Environment) (text : String) :
    SameBut (Config.AgreeBut .capabilities)
      (arguments.configuration ⟨disk, environment, fault⟩)
      (arguments.configuration
        ⟨disk, { environment with capabilities := some text }, fault⟩) := by
  have hagree : Environment.AgreeBut .capabilities environment
      { environment with capabilities := some text } := by
    intro other hother
    cases other with
    | capabilities => exact absurd rfl hother
    | _ => rfl
  -- The capabilities of an environment are always a list of texts.
  have hvalid : ∀ environment, arguments.Accepts .capabilities ⟨disk, environment, fault⟩ := by
    intro environment settings hsettings
    rw [Arguments.settings, if_pos hpath] at hsettings
    cases hsettings
    exact ⟨environment.capabilitiesOrDefault, rfl⟩
  exact configuration_sameBut (arguments.differOnlyIn_of_environment disk fault hagree)
    (hvalid _) (hvalid _)

/-- The capabilities of a run without a file are those of the environment. -/
theorem granted?_of_environment (hnone : arguments.options.capabilities = none)
    (hpath : arguments.configPath = "") (hconfig : arguments.configuration world = .ok config) :
    arguments.granted? config =
      some (.parse [world.environment.capabilities.getD ""]) := by
  have hmade : Config.ofEnvironment world.environment = .ok config := by
    rw [configuration_of_no_path world hpath] at hconfig
    cases hmade : Config.ofEnvironment world.environment with
    | error violations =>
        rw [hmade] at hconfig
        cases hconfig
    | ok made =>
        rw [hmade] at hconfig
        cases hconfig
        rfl
  rw [granted?_of_none hnone, Config.capabilities_of_ofEnvironment hmade,
    Environment.capabilitiesOrDefault, CapabilitySet.ofList_toList]

/-- A run that is granted texts on the command line is the run that finds them, as one text,
in the environment. -/
theorem run_granting_eq (program : Program) (disk : Disk) (fault : Option ReadFault)
    (environment : Environment) (hnone : arguments.options.capabilities = none)
    (hpath : arguments.configPath = "") {texts : List String} (hsome : texts ≠ [])
    (hseparator : separatorText ∉ texts) {text : String}
    (hsame : CapabilitySet.parse texts = .parse [text]) :
    (arguments.granting (texts.map grantValue)).run program ⟨disk, environment, fault⟩ =
      arguments.run program
        ⟨disk, { environment with capabilities := some text }, fault⟩ := by
  have hconfig := configuration_sameBut_capabilities hpath disk fault environment text
  generalize hfirst : arguments.configuration _ = first at hconfig
  generalize hsecond : arguments.configuration _ = second at hconfig
  -- Without a configuration nobody asks for capabilities; two configurations agree in the
  -- other fields.
  cases hconfig with
  | error error =>
      exact run_eq_of_configuration_error program
        ((configuration_granting _ arguments _).trans hfirst) hsecond
  | @ok config config' hrelated =>
      have htask : SameTask arguments arguments ⟨disk, environment, fault⟩
          ⟨disk, { environment with capabilities := some text }, fault⟩ config config' :=
        ⟨hfirst, hsecond, rfl, rfl, rfl, by rw [hrelated.hostVersion (by decide)],
          by rw [hrelated.policyName (by decide)], rfl, rfl⟩
      refine (htask.granting _).run_eq ?_ program
      rw [granted?_granting hnone hsome, if_neg hseparator, hsame,
        granted?_of_environment hnone hpath hsecond, Option.getD_some]

end Arguments

/-- A run that can make no request has no answer. -/
theorem Arguments.run_of_granted?_none {arguments : Arguments} {world : World} {config : Config}
    (program : Program) (hconfig : arguments.configuration world = .ok config)
    (hgranted : arguments.granted? config = none) :
    arguments.run program world = { ending := .escape .valueless } := by
  have hcheck : arguments.check program world = ⟨[], .error .valueless⟩ := by
    rw [check, hconfig]
    simp only [request?, hgranted, Option.map_none]
  rw [run, hcheck]
  rfl

/-- A run that is given the separator as capabilities has no answer. -/
theorem Arguments.run_granting_separator {arguments : Arguments} {world : World} {config : Config}
    (program : Program) (hnone : arguments.options.capabilities = none) {texts : List String}
    (hseparator : separatorText ∈ texts) (hconfig : arguments.configuration world = .ok config) :
    (arguments.granting (texts.map grantValue)).run program world =
      { ending := .escape .valueless } := by
  have hconfig' := (configuration_granting (texts.map grantValue) arguments world).trans hconfig
  have hgranted := granted?_granting hnone (List.ne_nil_of_mem hseparator) config
  rw [if_pos hseparator] at hgranted
  exact run_of_granted?_none program hconfig' hgranted

end Cli

/-- **Capabilities mean the same on the command line, in the environment and in a file.**

Take texts none of which is the separator.  First, the pieces of a text, each with an option
of its own, in any order and repeated at will, leave the run that the text leaves when it is
found in the environment, where the command line names no capabilities and no file; one
option with the text itself is a case of this, and what the environment says otherwise makes
no difference.  Secondly, if the capabilities of a configuration are names that are read as
they stand, then the run with this configuration is the run that has an option for each of
these names, under any configuration with the same host version and policy.  Thirdly, with
the separator among the texts there is no answer. -/
theorem capability_sources_agree (program : Cli.Program) :
    (∀ (disk : Disk) (fault : Option ReadFault) (environment : Environment)
        (pieces texts words plain : List String),
      Cli.Unconfigured plain → Cli.Grants texts words plain → pieces ≠ [] →
      (∀ text, text ∈ texts ↔ text ∈ pieces) → "--" ∉ pieces →
        Cli.run program ⟨disk, environment, fault⟩ words =
          Cli.run program
            ⟨disk, { environment with capabilities := some (",".intercalate pieces) }, fault⟩
            plain) ∧
    (∀ (world world' : Cli.World) (words plain' texts words' : List String)
        (arguments arguments' : Cli.Arguments) (config config' : Config),
      Cli.Arguments.parse words = .ok arguments → arguments.options.capabilities = none →
      Cli.Arguments.parse plain' = .ok arguments' → arguments'.options.capabilities = none →
      arguments.SameTask arguments' world world' config config' → config.capabilities ≠ [] →
      (∀ name ∈ config.capabilities, CapabilitySet.IsName name ∧ name ≠ "--") →
      (∀ text, text ∈ texts ↔ text ∈ config.capabilities) → Cli.Grants texts words' plain' →
        Cli.run program world words = Cli.run program world' words') ∧
    (∀ (world : Cli.World) (texts words plain : List String) (arguments : Cli.Arguments)
        (config : Config),
      Cli.Arguments.parse plain = .ok arguments → arguments.options.capabilities = none →
      arguments.configuration world = .ok config → Cli.Grants texts words plain →
      "--" ∈ texts →
        Cli.run program world words = { ending := .escape .valueless }) := by
  refine ⟨?_, ?_, ?_⟩
  · intro disk fault environment pieces texts words plain hplain hgrants hpieces hsame hseparator
    have hsome : texts ≠ [] := by
      obtain ⟨piece, rest, rfl⟩ := List.exists_cons_of_ne_nil hpieces
      exact List.ne_nil_of_mem ((hsame piece).2 (List.mem_cons_self ..))
    cases hwords : Cli.Arguments.parse plain with
    | error stop =>
        have hparse := hgrants.parse_eq fun arguments harguments => (hplain arguments harguments).1
        rw [hwords] at hparse
        rw [Cli.run, Cli.run, hparse, hwords]
        cases stop <;> rfl
    | ok arguments =>
        obtain ⟨hnone, hpath⟩ := hplain arguments hwords
        rw [Cli.run_of_parse (hgrants.parse_eq_ok hwords hnone), Cli.run_of_parse hwords]
        exact Cli.Arguments.run_granting_eq program disk fault environment hnone hpath hsome
          (fun hmem => hseparator ((hsame _).1 hmem)) (CapabilitySet.parse_pieces hpieces hsame)
  · intro world world' words plain' texts words' arguments arguments' config config' hwords hnone
      hplain' hnone' htask hsome hnames hsame hgrants
    rw [Cli.run_of_parse hwords, Cli.run_of_parse (hgrants.parse_eq_ok hplain' hnone')]
    refine ((htask.symm.granting _).run_eq ?_ program).symm
    obtain ⟨name, rest, hcons⟩ := List.exists_cons_of_ne_nil hsome
    have hsomeTexts : texts ≠ [] :=
      List.ne_nil_of_mem ((hsame name).2 (hcons ▸ List.mem_cons_self ..))
    have hseparator : Cli.separatorText ∉ texts := fun hmem =>
      (hnames _ ((hsame _).1 hmem)).2 rfl
    rw [Cli.Arguments.granted?_granting hnone' hsomeTexts, if_neg hseparator,
      Cli.Arguments.granted?_of_none hnone,
      CapabilitySet.parse_of_isName (fun name hname => (hnames name hname).1) hsame]
  · intro world texts words plain arguments config hplain hnone hconfig hgrants hseparator
    rw [Cli.run_of_parse (hgrants.parse_eq_ok hplain hnone)]
    exact Cli.Arguments.run_granting_separator program hnone hseparator hconfig

/-- A command line that derives capabilities from the contract and grants none. -/
def derivingWords : List String := ["a.wasm", "--capability-policy=requires_exports"]

/-- What that command line asks for. -/
def derivingArguments : Cli.Arguments :=
  ⟨"a.wasm", { policyName := some "requires_exports" }⟩

/-- The contract is valid with two options, with the environment, and with the file; with the
separator there is no verdict. -/
theorem capability_sources_agree_staking :
    (Cli.run .command (stakingWorld "" { capabilities := some "y" })
        ["a.wasm", "--capabilities=x", "--capability-policy=requires_exports",
          "--capabilities=staking "] =
      Cli.run .command (stakingWorld "" { capabilities := some "staking ,x" }) derivingWords ∧
      (Cli.run .command (stakingWorld "" { capabilities := some "staking ,x" })
        derivingWords).ending = .exit 0) ∧
    Cli.run .command (stakingWorld "capabilities: [staking]" {})
        ["a.wasm", "--capability-policy=requires_exports", "--config", "c.yaml"] =
      Cli.run .command (stakingWorld "" {}) ("--capabilities=staking" :: derivingWords) ∧
    Cli.run .command (stakingWorld "" {}) ("--capabilities=--" :: derivingWords) =
      { ending := .escape .valueless } := by
  have hparse : Cli.Arguments.parse derivingWords = .ok derivingArguments := by decide +kernel
  have hfront : ∀ text, Cli.Grants [text] (("--capabilities=" ++ text) :: derivingWords)
      derivingWords := fun text => Or.inl rfl
  refine ⟨⟨?_, by decide +kernel⟩, ?_, ?_⟩
  · have hwords : Cli.Arguments.parse ["a.wasm", "--capabilities=x",
        "--capability-policy=requires_exports", "--capabilities=staking "] =
        .ok { derivingArguments with
          options.capabilities := some [some "x", some "staking "] } := by decide +kernel
    have hinserted : Cli.Inserted Cli.grantWord (· = Cli.separatorText) ["x", "staking "]
        ["a.wasm", "--capabilities=x", "--capability-policy=requires_exports",
          "--capabilities=staking "] derivingWords :=
      .keep (by decide) (.insert (.keep (by decide) (.insert (.rest []))))
    have hplain : Cli.Unconfigured derivingWords := by
      intro arguments harguments
      rw [hparse] at harguments
      cases harguments
      exact ⟨rfl, rfl⟩
    exact (capability_sources_agree .command).1 _ _ _ ["staking ", "x"] _ _ _ hplain
      (Or.inr ⟨hinserted, ⟨_, hwords⟩, _, hparse⟩) (by decide) (by simp [or_comm]) (by decide)
  · have hwords : Cli.Arguments.parse
        ["a.wasm", "--capability-policy=requires_exports", "--config", "c.yaml"] =
        .ok { derivingArguments with options.config := some "c.yaml" } := by decide +kernel
    have htask : Cli.Arguments.SameTask { derivingArguments with options.config := some "c.yaml" }
        derivingArguments (stakingWorld "capabilities: [staking]" {}) (stakingWorld "" {})
        ⟨"cosmwasm-1", "none", ["staking"]⟩ ⟨"cosmwasm-1", "none", []⟩ :=
      ⟨by decide +kernel, by decide +kernel, rfl, by decide +kernel, rfl, rfl, rfl, rfl, rfl⟩
    have hname : CapabilitySet.IsName "staking" :=
      ⟨by decide, by decide, by simp [Text.isBlank], by simp [Text.isBlank]⟩
    exact (capability_sources_agree .command).2.1 _ _ _ _ ["staking"] _ _ _ _ _ hwords rfl hparse
      rfl htask (by simp) (by simpa using hname) (by simp) (hfront "staking")
  · exact (capability_sources_agree .command).2.2 _ _ _ _ _ ⟨"cosmwasm-1", "none", []⟩ hparse rfl
      (by decide +kernel) (hfront "--") (by decide)

/-- The separator is a name in the environment, and no text on the command line: a contract
that is looked at with the first is not looked at with the second. -/
theorem separator_is_no_capability :
    let disk := (⟨[(["s.wasm"], .file Wasm.header)]⟩ : FileTree).disk
    let granted := Cli.run .command ⟨disk, {}, none⟩ ["s.wasm", "--capabilities=--"]
    let found := Cli.run .command ⟨disk, { capabilities := some "--" }, none⟩ ["s.wasm"]
    granted ≠ found ∧ granted.ending = .escape .valueless ∧ found.ending = .exit 1 := by
  decide +kernel

end ContractAdmission
