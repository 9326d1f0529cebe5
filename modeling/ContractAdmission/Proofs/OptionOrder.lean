import ContractAdmission.Proofs.CapabilitySources
import ContractAdmission.Proofs.ContractFailures
import ContractAdmission.Proofs.Phrases

/-!
# The order of options

Of a command line of phrases and a path a run uses only what is asked for: the capabilities that
all texts for them name together, and whether there are such texts; the last text of each other
option; and which flags occur.  Where the path stands makes no difference, and neither does the
order of phrases of different options.  Only the separator as a text for capabilities shows
in a run though the capabilities are the same.

* `SameRequest` — phrases that ask for the same.
* `SameRequest.of_perm` — phrases in another order.
* `option_order_irrelevant` — when runs that are asked for the same are the same.
* `lone_separator_matters` — the separator makes a difference.
-/

namespace ContractAdmission
namespace Cli

/-- Phrases that ask for the same: the same capabilities, if for any; the same last text of each
option with one value, where no configuration is an empty path of one; and the same flags. -/
structure SameRequest (phrases phrases' : List Phrase) : Prop where
  capabilities : CapabilitySet.parse (Phrase.texts .capabilities phrases) =
    CapabilitySet.parse (Phrase.texts .capabilities phrases')
  granting : Phrase.texts .capabilities phrases = [] ↔ Phrase.texts .capabilities phrases' = []
  hostVersion : (Phrase.texts .hostVersion phrases).getLast? =
    (Phrase.texts .hostVersion phrases').getLast?
  policy : (Phrase.texts .policy phrases).getLast? = (Phrase.texts .policy phrases').getLast?
  config : (Phrase.texts .config phrases).getLast?.getD "" =
    (Phrase.texts .config phrases').getLast?.getD ""
  json : .json ∈ phrases ↔ .json ∈ phrases'
  verbose : .verbose ∈ phrases ↔ .verbose ∈ phrases'

/-- Phrases in another order ask for the same, if the options with one value keep their texts in
order. -/
theorem SameRequest.of_perm {phrases phrases' : List Phrase} (h : phrases.Perm phrases')
    (hversion : Phrase.texts .hostVersion phrases = Phrase.texts .hostVersion phrases')
    (hpolicy : Phrase.texts .policy phrases = Phrase.texts .policy phrases')
    (hconfig : Phrase.texts .config phrases = Phrase.texts .config phrases') :
    SameRequest phrases phrases' := by
  have htexts : (Phrase.texts .capabilities phrases).Perm (Phrase.texts .capabilities phrases') :=
    h.filterMap _
  refine ⟨?_, ?_, by rw [hversion], by rw [hpolicy], by rw [hconfig], h.mem_iff, h.mem_iff⟩
  · refine CapabilitySet.eq_of_mem_iff fun name => ?_
    simp only [CapabilitySet.mem_parse, htexts.mem_iff]
  · rw [← List.perm_nil, ← List.perm_nil]
    exact ⟨htexts.symm.trans, htexts.trans⟩

namespace Arguments

variable {path : String} {phrases phrases' : List Phrase} {world : World} {config : Config}

/-- The file of the configuration is told by the last text for it.  The separator is no file. -/
theorem configPath_ofPhrases (path : String) (phrases : List Phrase) :
    configPath ⟨path, .ofPhrases phrases⟩ =
      (Options.valueOf ((Phrase.texts .config phrases).getLast?.getD "")).getD "" := by
  unfold configPath Options.ofPhrases
  cases (Phrase.texts .config phrases).getLast? with
  | none => rfl
  | some text => rfl

theorem granted?_ofPhrases_of_nil (h : Phrase.texts .capabilities phrases = []) (path : String)
    (config : Config) :
    granted? ⟨path, .ofPhrases phrases⟩ config = some (.ofList config.capabilities) := by
  refine granted?_of_none ?_ config
  simp only [Options.ofPhrases, h]

theorem granted?_ofPhrases_of_ne_nil (h : Phrase.texts .capabilities phrases ≠ [])
    (path : String) (config : Config) :
    granted? ⟨path, .ofPhrases phrases⟩ config =
      if separatorText ∈ Phrase.texts .capabilities phrases then none
      else some (.parse (Phrase.texts .capabilities phrases)) := by
  refine granted?_of_texts ?_ config
  obtain ⟨text, rest, htexts⟩ := List.exists_cons_of_ne_nil h
  simp only [Options.ofPhrases, htexts]

/-- A request cannot be made just when the separator is among the texts for capabilities. -/
theorem request?_ofPhrases_eq_none_iff (path : String) (phrases : List Phrase)
    (config : Config) :
    request? ⟨path, .ofPhrases phrases⟩ config = none ↔
      separatorText ∈ Phrase.texts .capabilities phrases := by
  rw [request?, Option.map_eq_none_iff]
  by_cases hnil : Phrase.texts .capabilities phrases = []
  · simp [granted?_ofPhrases_of_nil hnil, hnil]
  · simp [granted?_ofPhrases_of_ne_nil hnil]

/-- The same is granted, if the separator is among the texts of both or of neither. -/
theorem granted?_eq_of_sameRequest (h : SameRequest phrases phrases')
    (hseparator : separatorText ∈ Phrase.texts .capabilities phrases ↔
      separatorText ∈ Phrase.texts .capabilities phrases') (path : String) (config : Config) :
    granted? ⟨path, .ofPhrases phrases⟩ config = granted? ⟨path, .ofPhrases phrases'⟩ config := by
  by_cases hnil : Phrase.texts .capabilities phrases = []
  · rw [granted?_ofPhrases_of_nil hnil, granted?_ofPhrases_of_nil (h.granting.1 hnil)]
  · rw [granted?_ofPhrases_of_ne_nil hnil,
      granted?_ofPhrases_of_ne_nil fun hnil' => hnil (h.granting.2 hnil'), h.capabilities]
    simp only [hseparator]

/-- The same request has the same configuration. -/
theorem configuration_eq_of_sameRequest (h : SameRequest phrases phrases') (path : String)
    (world : World) :
    configuration ⟨path, .ofPhrases phrases⟩ world =
      configuration ⟨path, .ofPhrases phrases'⟩ world := by
  have hpath : configPath ⟨path, .ofPhrases phrases⟩ = configPath ⟨path, .ofPhrases phrases'⟩ := by
    rw [configPath_ofPhrases, configPath_ofPhrases, h.config]
  unfold configPath at hpath
  unfold configuration
  rw [hpath]

/-- The same request is the same task. -/
theorem sameTask_of_sameRequest (h : SameRequest phrases phrases')
    (hconfig : configuration ⟨path, .ofPhrases phrases⟩ world = .ok config) :
    SameTask ⟨path, .ofPhrases phrases⟩ ⟨path, .ofPhrases phrases'⟩ world world config config where
  configured := hconfig
  configured' := (configuration_eq_of_sameRequest h path world).symm.trans hconfig
  path := rfl
  contract := rfl
  fault := rfl
  hostVersion := by simp only [Options.ofPhrases, h.hostVersion]
  policyName := by simp only [Options.ofPhrases, h.policy]
  json := decide_eq_decide.2 h.json
  verbose := decide_eq_decide.2 h.verbose

end Arguments

/-- What the phrases of a command line that is accepted ask for. -/
theorem Spells.parse_eq {path : String} {phrases : List Phrase} {words : List String}
    {arguments : Arguments} (h : Spells path phrases words) (hpath : path.toList.head? ≠ some '-')
    (hwords : Arguments.parse words = .ok arguments) :
    arguments = ⟨path, .ofPhrases phrases⟩ := by
  rw [Arguments.parse_of_spells hpath h] at hwords
  cases hoptions : ({} : Options).takeAll (phrases.map Phrase.use) with
  | error stop =>
      rw [hoptions] at hwords
      cases hwords
  | ok options =>
      rw [hoptions] at hwords
      cases hwords
      rw [Options.eq_ofPhrases hoptions]

/-- Phrases are accepted in every order, or in none. -/
theorem Spells.exists_parse_iff {path : String} {phrases : List Phrase} {words : List String}
    (h : Spells path phrases words) (hpath : path.toList.head? ≠ some '-') :
    (∃ arguments, Arguments.parse words = .ok arguments) ↔
      ∀ phrase ∈ phrases, phrase.use.Allowed := by
  rw [Arguments.parse_of_spells hpath h, ← List.forall_mem_map, ← Options.exists_takeAll_iff {}]
  cases ({} : Options).takeAll (phrases.map Phrase.use) <;> simp [Except.map]

/-- A run that has its configuration ends for want of a text just when the separator is among the
texts for capabilities. -/
theorem Arguments.ending_eq_valueless_iff (program : Program) {world : World} {path : String}
    {phrases : List Phrase} {words : List String} {config : Config}
    (hwords : parse words = .ok ⟨path, .ofPhrases phrases⟩)
    (hconfig : configuration ⟨path, .ofPhrases phrases⟩ world = .ok config) :
    (run ⟨path, .ofPhrases phrases⟩ program world).ending = .escape .valueless ↔
      separatorText ∈ Phrase.texts .capabilities phrases := by
  rw [← request?_ofPhrases_eq_none_iff path phrases config]
  rcases ending_of_configuration program hwords hconfig with
    ⟨hnone, hending⟩ | ⟨hsome, -, hending⟩ | ⟨hsome, -, verdict, hending⟩
  · exact iff_of_true hending hnone
  · exact iff_of_false (by simp [hending]) hsome
  · exact iff_of_false (by simp [hending]) hsome

/-- Runs that are asked for the same are the same, unless only one of them has the separator as
a text for capabilities and a configuration lets it show. -/
theorem Arguments.run_eq_iff_of_sameRequest (program : Program) (world : World) {path : String}
    {phrases phrases' : List Phrase} {words words' : List String}
    (h : SameRequest phrases phrases')
    (hwords : parse words = .ok ⟨path, .ofPhrases phrases⟩)
    (hwords' : parse words' = .ok ⟨path, .ofPhrases phrases'⟩) :
    run ⟨path, .ofPhrases phrases⟩ program world = run ⟨path, .ofPhrases phrases'⟩ program world ↔
      (separatorText ∈ Phrase.texts .capabilities phrases ↔
          separatorText ∈ Phrase.texts .capabilities phrases') ∨
        ∀ config, configuration ⟨path, .ofPhrases phrases⟩ world ≠ .ok config := by
  cases hconfig : configuration ⟨path, .ofPhrases phrases⟩ world with
  | error error =>
      have hconfig' := (configuration_eq_of_sameRequest h path world).symm.trans hconfig
      exact iff_of_true (run_eq_of_configuration_error program hconfig hconfig')
        (Or.inr fun config hloaded => nomatch hloaded)
  | ok config =>
      have htask := sameTask_of_sameRequest h hconfig
      constructor
      · intro hrun
        refine Or.inl ?_
        rw [← ending_eq_valueless_iff program hwords hconfig, hrun,
          ending_eq_valueless_iff program hwords' htask.configured']
      · rintro (hseparator | hnever)
        · exact htask.run_eq (granted?_eq_of_sameRequest h hseparator path config) program
        · exact absurd rfl (hnever config)

end Cli

/-- **The order of options does not matter.**

Take two command lines of phrases and a path, the same path in both.  First, if both are accepted
and their phrases ask for the same, then they have the same outcome exactly when the separator
is a text for capabilities in both or in neither, or no configuration is found.  Secondly, if
the phrases are the same in another order, and the options with one value have their texts in
the same order, then the one is accepted as the other is, and they have the same outcome. -/
theorem option_order_irrelevant (program : Cli.Program) (world : Cli.World) {path : String}
    (hpath : path.toList.head? ≠ some '-') {phrases phrases' : List Cli.Phrase}
    {words words' : List String} {arguments : Cli.Arguments}
    (h : Cli.Spells path phrases words) (h' : Cli.Spells path phrases' words')
    (hwords : Cli.Arguments.parse words = .ok arguments) :
    (Cli.SameRequest phrases phrases' →
      (∃ arguments', Cli.Arguments.parse words' = .ok arguments') →
        (Cli.run program world words = Cli.run program world words' ↔
          ("--" ∈ Cli.Phrase.texts .capabilities phrases ↔
              "--" ∈ Cli.Phrase.texts .capabilities phrases') ∨
            ∀ config, arguments.configuration world ≠ .ok config)) ∧
    (phrases.Perm phrases' →
      (∀ opt ∈ [Cli.Opt.hostVersion, .policy, .config],
        Cli.Phrase.texts opt phrases = Cli.Phrase.texts opt phrases') →
        (∃ arguments', Cli.Arguments.parse words' = .ok arguments') ∧
          Cli.run program world words = Cli.run program world words') := by
  have hsame : Cli.SameRequest phrases phrases' →
      (∃ arguments', Cli.Arguments.parse words' = .ok arguments') →
        (Cli.run program world words = Cli.run program world words' ↔
          ("--" ∈ Cli.Phrase.texts .capabilities phrases ↔
              "--" ∈ Cli.Phrase.texts .capabilities phrases') ∨
            ∀ config, arguments.configuration world ≠ .ok config) := by
    rintro hrequest ⟨arguments', hwords'⟩
    obtain rfl := h.parse_eq hpath hwords
    obtain rfl := h'.parse_eq hpath hwords'
    rw [Cli.run_of_parse hwords, Cli.run_of_parse hwords']
    exact Cli.Arguments.run_eq_iff_of_sameRequest program world hrequest hwords hwords'
  refine ⟨hsame, fun hperm htexts => ?_⟩
  have haccepted : ∃ arguments', Cli.Arguments.parse words' = .ok arguments' := by
    rw [h'.exists_parse_iff hpath]
    intro phrase hphrase
    exact (h.exists_parse_iff hpath).1 ⟨arguments, hwords⟩ phrase (hperm.mem_iff.2 hphrase)
  have hrequest : Cli.SameRequest phrases phrases' :=
    .of_perm hperm (htexts _ (by simp)) (htexts _ (by simp)) (htexts _ (by simp))
  refine ⟨haccepted, (hsame hrequest haccepted).2 (Or.inl ?_)⟩
  exact (hperm.filterMap _).mem_iff

/-- Phrases that grant capabilities in two texts and derive others from the contract. -/
def stakingPhrases : List Cli.Phrase :=
  [.capabilities "x", .policy "requires_exports", .capabilities "staking "]

/-- One text with a comma in front of the path, and the two texts in another order, are what is
asked for with the path first. -/
theorem option_order_irrelevant_staking :
    Cli.run .command (stakingWorld "" {})
        ["a.wasm", "--capabilities=x", "--capability-policy=requires_exports",
          "--capabilities=staking "] =
      Cli.run .command (stakingWorld "" {})
        ["--capability-policy=requires_exports", "--capabilities=staking,x,", "a.wasm",
          "--config="] ∧
    Cli.run .command (stakingWorld "" {})
        ["a.wasm", "--capabilities=x", "--capability-policy=requires_exports",
          "--capabilities=staking "] =
      Cli.run .command (stakingWorld "" {})
        ["--capabilities=staking ", "a.wasm", "--capabilities=x",
          "--capability-policy=requires_exports"] ∧
    (Cli.run .command (stakingWorld "" {})
        ["a.wasm", "--capabilities=x", "--capability-policy=requires_exports",
          "--capabilities=staking "]).ending = .exit 0 := by
  have hpath : "a.wasm".toList.head? ≠ some '-' := by decide
  have hspells : Cli.Spells "a.wasm" stakingPhrases
      ["a.wasm", "--capabilities=x", "--capability-policy=requires_exports",
        "--capabilities=staking "] := ⟨[], stakingPhrases, rfl, rfl⟩
  have hwords : Cli.Arguments.parse
      ["a.wasm", "--capabilities=x", "--capability-policy=requires_exports",
        "--capabilities=staking "] =
      .ok ⟨"a.wasm", .ofPhrases stakingPhrases⟩ := by decide +kernel
  refine ⟨?_, ?_, by decide +kernel⟩
  · have hspells' : Cli.Spells "a.wasm"
        [.policy "requires_exports", .capabilities "staking,x,", .config ""]
        ["--capability-policy=requires_exports", "--capabilities=staking,x,", "a.wasm",
          "--config="] :=
      ⟨[.policy "requires_exports", .capabilities "staking,x,"], [.config ""], rfl, rfl⟩
    have hrequest : Cli.SameRequest stakingPhrases
        [.policy "requires_exports", .capabilities "staking,x,", .config ""] :=
      ⟨rfl, by decide, rfl, rfl, rfl, by decide, by decide⟩
    exact ((option_order_irrelevant .command (stakingWorld "" {}) hpath hspells hspells'
      hwords).1 hrequest ⟨_, rfl⟩).2 (Or.inl (by decide))
  · have hspells' : Cli.Spells "a.wasm"
        [.capabilities "staking ", .capabilities "x", .policy "requires_exports"]
        ["--capabilities=staking ", "a.wasm", "--capabilities=x",
          "--capability-policy=requires_exports"] :=
      ⟨[.capabilities "staking "], [.capabilities "x", .policy "requires_exports"], rfl, rfl⟩
    exact ((option_order_irrelevant .command (stakingWorld "" {}) hpath hspells hspells'
      hwords).2 (by decide) (by decide)).2

/-- Blanks around a text do not change the capabilities that it names, but the separator with a
blank in front of it is a text, and without one it is none. -/
theorem lone_separator_matters :
    let world : Cli.World :=
      ⟨(⟨[(["o.wasm"], .file Wasm.header)]⟩ : FileTree).disk, {}, none⟩
    let bare := ["o.wasm", "--capabilities=--"]
    let blank := ["o.wasm", "--capabilities= --"]
    Cli.Spells "o.wasm" [.capabilities "--"] bare ∧
      Cli.Spells "o.wasm" [.capabilities " --"] blank ∧
      Cli.SameRequest [.capabilities "--"] [.capabilities " --"] ∧
      (∃ arguments, Cli.Arguments.parse bare = .ok arguments) ∧
      (∃ arguments, Cli.Arguments.parse blank = .ok arguments) ∧
      Cli.run .command world bare ≠ Cli.run .command world blank ∧
      (Cli.run .command world bare).ending = .escape .valueless ∧
      (Cli.run .command world blank).ending = .exit 1 := by
  refine ⟨⟨[], [.capabilities "--"], rfl, rfl⟩, ⟨[], [.capabilities " --"], rfl, rfl⟩,
    ⟨rfl, by decide, rfl, rfl, rfl, by decide, by decide⟩,
    ⟨⟨"o.wasm", .ofPhrases [.capabilities "--"]⟩, by decide +kernel⟩,
    ⟨⟨"o.wasm", .ofPhrases [.capabilities " --"]⟩, by decide +kernel⟩,
    by decide +kernel, by decide +kernel, by decide +kernel⟩

end ContractAdmission
