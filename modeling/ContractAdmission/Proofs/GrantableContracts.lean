import ContractAdmission.Proofs.AnswerLines
import ContractAdmission.Proofs.CapabilitySources

/-!
# Contracts that can be granted what they ask for

A contract names the capabilities that it requires by its marker exports, and these can be any
texts.  Whoever runs the program names capabilities in texts that are split at commas and
stripped of blanks, so some names cannot be written at all.  A contract that asks for one of
these is refused whatever is granted to it; every other contract can be granted what it asks
for, even by one text.

* `CapabilitySet.exists_parse_iff` — the sets that can be read from texts.
* `CapabilitySet.parse_grantText` — one text that grants such a set, and is no separator.
* `Interface.Grantable` — the contracts that ask for nothing else.
* `granting_valid_iff` — what is granted on the command line decides, where nothing else is wrong.
* `grantable_iff_some_text_valid` — the contracts that some text makes valid.

A list in the file of a configuration is not split, so it can name what no text can; nothing
is said here about files.
-/

namespace ContractAdmission

/-! ### Names that can be written -/

namespace Text

variable {p : Char → Bool} {c : Char} {cs : List Char}

theorem mem_of_mem_trim (h : c ∈ trim p cs) : c ∈ cs :=
  (List.dropWhile_suffix p).subset ((trimRight_isPrefix p _).subset h)

/-- What is left after trimming does not end in a character of the class. -/
theorem of_getLast?_trimRight (h : (trimRight p cs).getLast? = some c) : p c = false := by
  induction cs with
  | nil => cases h
  | cons first rest ih =>
      unfold trimRight at h
      split at h
      · split at h
        · cases h
        · rename_i hfirst
          cases h
          simpa using hfirst
      · rename_i hkept
        -- Something is kept behind the first character, and it has the same end.
        obtain ⟨next, later, hrest⟩ := List.exists_cons_of_ne_nil hkept
        rw [hrest, List.getLast?_cons_cons, ← hrest] at h
        exact ih h

/-- What is left after trimming does not begin with a character of the class. -/
theorem of_head?_trim (h : (trim p cs).head? = some c) : p c = false := by
  obtain ⟨trimmed, hwhole⟩ := trimRight_isPrefix p (cs.dropWhile p)
  have hhead : (cs.dropWhile p).head? = some c := by
    rw [trim] at h
    rw [← hwhole, List.head?_append, h, Option.some_or]
  have hkept := List.head?_dropWhile_not p cs
  rwa [hhead] at hkept

end Text

/-- No piece of a text has the character at which the text was split. -/
theorem notMem_of_mem_splitOn {separator : Char} {cs piece : List Char}
    (h : piece ∈ cs.splitOn separator) : separator ∉ piece := by
  induction cs generalizing piece with
  | nil =>
      rw [List.splitOn_nil, List.mem_singleton] at h
      subst h
      exact List.not_mem_nil
  | cons c rest ih =>
      rw [List.splitOn_cons_eq_if_modifyHead] at h
      obtain ⟨first, others, hrest⟩ :=
        List.exists_cons_of_ne_nil (List.splitOn_ne_nil separator rest)
      split at h
      · rcases List.mem_cons.1 h with rfl | hlater
        · exact List.not_mem_nil
        · exact ih hlater
      · rename_i hc
        rw [hrest, List.modifyHead_cons] at h
        rcases List.mem_cons.1 h with rfl | hlater
        · have hfirst : separator ∉ first := ih (hrest ▸ List.mem_cons_self ..)
          have hother : separator ≠ c := fun hsame => hc (beq_iff_eq.2 hsame.symm)
          exact List.not_mem_cons_of_ne_of_not_mem hother hfirst
        · exact ih (hrest ▸ List.mem_cons_of_mem _ hlater)

namespace CapabilitySet

/-- A name is read as it stands exactly when it is not empty, has no comma, and is left alone
by stripping. -/
theorem isName_iff {name : String} :
    IsName name ↔ name ≠ "" ∧ ',' ∉ name.toList ∧ Text.strip name = name := by
  constructor
  · intro h
    refine ⟨h.nonempty, h.noComma, ?_⟩
    rw [Text.strip, Text.stripChars_eq_self h.first h.last, String.ofList_toList]
  · rintro ⟨hnonempty, hcomma, hstrip⟩
    have hchars : Text.stripChars name.toList = name.toList := by
      rw [← Text.toList_strip, hstrip]
    refine ⟨hnonempty, hcomma, ?_, ?_⟩
    · intro c hc
      rw [← hchars] at hc
      exact Text.of_head?_trim hc
    · intro c hc
      rw [← hchars] at hc
      exact Text.of_getLast?_trimRight hc

/-- The names in a text are read as they stand. -/
theorem isName_of_mem_namesIn {text name : String} (h : name ∈ namesIn text) : IsName name := by
  obtain ⟨hpiece, hnonempty⟩ := List.mem_filter.1 h
  obtain ⟨piece, hsplit, rfl⟩ := List.mem_map.1 hpiece
  refine ⟨by simpa using hnonempty, ?_, ?_, ?_⟩
  · rw [String.toList_ofList]
    exact fun hcomma => notMem_of_mem_splitOn hsplit (Text.mem_of_mem_trim hcomma)
  · intro c hc
    rw [String.toList_ofList] at hc
    exact Text.of_head?_trim hc
  · intro c hc
    rw [String.toList_ofList] at hc
    exact Text.of_getLast?_trimRight hc

theorem isName_of_mem_parse {texts : List String} {name : String} (h : name ∈ parse texts) :
    IsName name := by
  obtain ⟨text, -, hname⟩ := mem_parse.1 h
  exact isName_of_mem_namesIn hname

/-- A text that names the members of a set.  The comma in front keeps it from being the
separator of the command line. -/
def grantText (set : CapabilitySet) : String := ",".intercalate ("" :: set.toList)

theorem grantText_ne_separator (set : CapabilitySet) :
    grantText set ≠ Cli.separatorText := by
  unfold grantText
  cases set.toList with
  | nil => decide
  | cons name rest =>
      rw [String.intercalate_cons_cons]
      intro hsame
      have hhead := congrArg (fun text : String => text.toList.head?) hsame
      simp [Cli.separatorText] at hhead

theorem separator_notMem_grantText (set : CapabilitySet) :
    Cli.separatorText ∉ [grantText set] := fun hmem =>
  grantText_ne_separator set (List.mem_singleton.1 hmem).symm

theorem parse_grantText {set : CapabilitySet} (h : ∀ name ∈ set, IsName name) :
    parse [grantText set] = set := by
  have hblank : namesIn "" = [] := by decide
  refine eq_of_mem_iff fun name => ?_
  rw [mem_parse]
  simp only [List.mem_singleton, exists_eq_left, grantText,
    namesIn_intercalate (List.cons_ne_nil _ _), List.flatMap_cons, hblank, List.nil_append,
    List.mem_flatMap]
  constructor
  · rintro ⟨other, hother, hname⟩
    rw [(h other hother).namesIn_eq, List.mem_singleton] at hname
    exact hname ▸ hother
  · intro hname
    refine ⟨name, hname, ?_⟩
    rw [(h name hname).namesIn_eq]
    exact List.mem_singleton_self name

/-- A set can be read from texts exactly when its members are read as they stand. -/
theorem exists_parse_iff {set : CapabilitySet} :
    (∃ texts, parse texts = set) ↔ ∀ name ∈ set, IsName name := by
  constructor
  · rintro ⟨texts, rfl⟩ name hname
    exact isName_of_mem_parse hname
  · intro hnames
    exact ⟨[grantText set], parse_grantText hnames⟩

end CapabilitySet

/-! ### Contracts -/

/-- An interface that passes the four checks of the first CosmWasm host that come before that
of its capabilities. -/
structure Interface.Structured (iface : Interface) : Prop where
  memories : Check.memories iface = none
  interfaceVersion : Check.interfaceVersion iface Host.cosmwasm1 = none
  exports : Check.exports iface Host.cosmwasm1 = none
  imports : Check.imports iface Host.cosmwasm1 = none

/-- An interface whose marker exports ask for capabilities that can be written. -/
def Interface.Grantable (iface : Interface) : Prop :=
  ∀ entry ∈ iface.exports, ∀ capability, capability ≠ "" →
    entry.name = "requires_" ++ capability →
      ',' ∉ capability.toList ∧ Text.strip capability = capability

/-- The terms of a host that reads marker exports. -/
def requiringTerms (granted : CapabilitySet) : Terms :=
  ⟨Host.cosmwasm1, .markerExports, granted⟩

/-- The request for these terms. -/
def requiringRequest (granted : CapabilitySet) : Request :=
  ⟨granted, "cosmwasm-1", "requires_exports"⟩

namespace Interface

variable {iface : Interface} {granted : CapabilitySet}

theorem grantable_iff :
    iface.Grantable ↔
      ∀ name ∈ Policy.markerExports.required iface, CapabilitySet.IsName name := by
  have hrequired : ∀ name, name ∈ Policy.markerExports.required iface ↔
      ∃ entry ∈ iface.exports, name ≠ "" ∧ entry.name = "requires_" ++ name := by
    intro name
    simp [Policy.required, exportNames, Policy.markedCapability?_eq_some_iff]
  simp only [hrequired, CapabilitySet.isName_iff, Grantable]
  constructor
  · rintro h name ⟨entry, hentry, hnonempty, hname⟩
    exact ⟨hnonempty, h entry hentry name hnonempty hname⟩
  · intro h entry hentry name hnonempty hname
    exact (h name ⟨entry, hentry, hnonempty, hname⟩).2

/-- Where the other checks pass, the verdict is that of the check of capabilities. -/
theorem Structured.judge_value (h : iface.Structured) :
    (judge iface (requiringTerms granted)).value =
      .ofDefect? (Check.capabilities iface granted .markerExports) := by
  have hbefore : ∀ stage ∈ [Stage.memories, .interfaceVersion, .exports, .imports],
      Check.run iface (requiringTerms granted) stage = none := by
    simp only [List.mem_cons, List.not_mem_nil, or_false, forall_eq_or_imp, forall_eq]
    exact ⟨h.memories, h.interfaceVersion, h.exports, h.imports⟩
  have hstages : Stage.all =
      [.memories, .interfaceVersion, .exports, .imports] ++ [.capabilities] := rfl
  have hlast : [Stage.capabilities].findSome? (Check.run iface (requiringTerms granted)) =
      Check.capabilities iface granted .markerExports := by
    rw [List.findSome?_singleton]
    rfl
  rw [judge, hstages, judgeStages_append_of_passing hbefore, judgeStages_value, hlast]

theorem Structured.judge_valid_iff (h : iface.Structured) :
    (judge iface (requiringTerms granted)).value = .valid ↔
      ∀ name ∈ Policy.markerExports.required iface, name ∈ granted := by
  rw [h.judge_value, Verdict.ofDefect?_eq_valid_iff, Check.capabilities_eq_none_iff]

/-- What texts grant makes a contract valid only if it is grantable. -/
theorem Structured.grantable_of_valid (h : iface.Structured) {texts : List String}
    (hvalid : (judge iface (requiringTerms (.parse texts))).value = .valid) : iface.Grantable :=
  grantable_iff.2 fun name hname =>
    CapabilitySet.isName_of_mem_parse (h.judge_valid_iff.1 hvalid name hname)

/-- One text grants all that a grantable contract asks for. -/
theorem Structured.valid_of_grantable (h : iface.Structured) (hgrantable : iface.Grantable) :
    (judge iface (requiringTerms
      (.parse [(Policy.markerExports.required iface).grantText]))).value = .valid := by
  rw [h.judge_valid_iff, CapabilitySet.parse_grantText (grantable_iff.1 hgrantable)]
  exact fun name hname => hname

/-- A contract that is not grantable is refused for its capabilities. -/
theorem Structured.invalid_of_not_grantable (h : iface.Structured)
    (hgrantable : ¬ iface.Grantable) (texts : List String) :
    ∃ reason, (judge iface (requiringTerms (.parse texts))).value =
      .invalid .capabilities reason := by
  have hvalid : (judge iface (requiringTerms (.parse texts))).value ≠ .valid := fun hvalid =>
    hgrantable (h.grantable_of_valid hvalid)
  rw [h.judge_value] at hvalid ⊢
  cases hfound : Check.run iface (requiringTerms (.parse texts)) .capabilities with
  | none => exact absurd (Verdict.ofDefect?_eq_valid_iff.2 hfound) hvalid
  | some defect =>
      exact ⟨defect.message,
        Verdict.ofDefect?_eq_invalid_iff.2 ⟨defect, hfound, Check.stage_of_run hfound, rfl⟩⟩

end Interface

theorem assess_requiringRequest (iface : Interface) (granted : CapabilitySet) :
    (assess iface (requiringRequest granted)).value =
      .ok (judge iface (requiringTerms granted)).value := by
  have hhost : Host.resolve (requiringRequest granted).hostVersion = .ok Host.cosmwasm1 :=
    Host.resolve_cosmwasm1
  have hpolicy : Policy.resolve (requiringRequest granted).policyName = .ok .markerExports :=
    Policy.resolve_name .markerExports
  rw [assess_of_known iface hhost hpolicy]
  rfl

/-! ### Runs -/

/-- Requests for the same names have the same terms but for what they grant. -/
theorem Request.terms_of_granted {request : Request} {terms : Terms}
    (h : request.terms = .ok terms) (granted : CapabilitySet) :
    ({ request with granted } : Request).terms = .ok { terms with granted } := by
  unfold Request.terms at h ⊢
  cases hhost : Host.resolve request.hostVersion with
  | error error =>
      rw [hhost] at h
      cases h
  | ok host =>
      cases hpolicy : Policy.resolve request.policyName with
      | error error =>
          rw [hhost, hpolicy] at h
          cases h
      | ok policy =>
          rw [hhost, hpolicy] at h
          cases h
          rfl

theorem Request.granted_of_terms {request : Request} {terms : Terms}
    (h : request.terms = .ok terms) : terms.granted = request.granted := by
  have hsame := Request.terms_of_granted h request.granted
  rw [h] at hsame
  exact congrArg Terms.granted (Except.ok.inj hsame)

namespace Cli.Arguments

variable {arguments : Arguments} {world : World} {iface : Interface} {terms : Terms}

/-- A run that holds an interface against terms ends as the verdict on it says. -/
theorem Holds.ending (h : arguments.Holds world iface terms) (program : Program) :
    (arguments.run program world).ending = .exit (exitCode (some (judge iface terms).value)) := by
  obtain ⟨⟨config, request, hconfig, hrequest, hterms⟩, bytes, hlook, hfault, hcompile⟩ := h
  have hvalue := check_of_request program hconfig hrequest
  have hjudged : (checkContract world.disk world.fault arguments.path request).value =
      .ok (judge iface terms).value := by
    simp [checkContract, hlook, hfault, validate, hcompile, assess, hterms, Logged.mapValue,
      Except.mapError]
  rw [hjudged] at hvalue
  exact (run_of_check hvalue).1

/-- What is granted without the help of a file is read from texts. -/
theorem Holds.exists_texts (h : arguments.Holds world iface terms)
    (hsource : arguments.options.capabilities ≠ none ∨ arguments.configPath = "") :
    ∃ texts, terms.granted = .parse texts := by
  obtain ⟨config, request, hconfig, hrequest, hterms⟩ := h.asked
  obtain ⟨granted, hgranted, rfl⟩ := Option.map_eq_some_iff.1 hrequest
  rw [Request.granted_of_terms hterms]
  cases hgiven : arguments.options.capabilities with
  | some values =>
      rw [granted?, hgiven] at hgranted
      obtain ⟨texts, -, rfl⟩ := Option.map_eq_some_iff.1 hgranted
      exact ⟨texts, rfl⟩
  | none =>
      have hpath := hsource.resolve_left fun hsome => hsome hgiven
      rw [granted?_of_environment hgiven hpath hconfig] at hgranted
      exact ⟨_, (Option.some.inj hgranted).symm⟩

/-- With texts for its capabilities a run holds the same interface against what they grant. -/
theorem Holds.granting (h : arguments.Holds world iface terms)
    (hnone : arguments.options.capabilities = none) {texts : List String} (hsome : texts ≠ [])
    (hseparator : separatorText ∉ texts) :
    (arguments.granting (texts.map grantValue)).Holds world iface
      { terms with granted := .parse texts } := by
  obtain ⟨⟨config, request, hconfig, hrequest, hterms⟩, hread⟩ := h
  obtain ⟨granted, -, rfl⟩ := Option.map_eq_some_iff.1 hrequest
  have hconfig' := (configuration_granting (texts.map grantValue) arguments world).trans hconfig
  have hgranted := granted?_granting hnone hsome config
  rw [if_neg hseparator] at hgranted
  obtain ⟨capabilities, hsame⟩ := exists_granting_eq (texts.map grantValue) arguments
  rw [hsame] at hconfig' hgranted ⊢
  refine ⟨⟨config, _, hconfig', ?_, Request.terms_of_granted hterms (.parse texts)⟩, hread⟩
  rw [request?, hgranted]
  rfl

/-- A contract that is not grantable is refused, unless a file names what it is granted. -/
theorem Holds.ending_of_not_grantable (h : arguments.Holds world iface terms)
    (hpolicy : terms.policy = .markerExports) (hgrantable : ¬ iface.Grantable)
    (hsource : arguments.options.capabilities ≠ none ∨ arguments.configPath = "")
    (program : Program) : (arguments.run program world).ending = .exit 1 := by
  obtain ⟨texts, htexts⟩ := h.exists_texts hsource
  rw [h.ending program]
  cases hverdict : (judge iface terms).value with
  | invalid stage reason => rfl
  | valid =>
      refine absurd (Interface.grantable_iff.2 fun name hname => ?_) hgrantable
      have hpass := Check.capabilities_eq_none_iff.1 (judge_valid_iff.1 hverdict .capabilities)
      rw [hpolicy, htexts] at hpass
      exact CapabilitySet.isName_of_mem_parse (hpass name hname)

/-- A grantable contract is valid with an option for the text that names what it asks for. -/
theorem Holds.ending_of_grantable (h : arguments.Holds world iface terms)
    (hpolicy : terms.policy = .markerExports) (hstructured : iface.Structured)
    (hgrantable : iface.Grantable) (hnone : arguments.options.capabilities = none)
    (program : Program) :
    ((arguments.granting
      [grantValue (Policy.markerExports.required iface).grantText]).run program world).ending =
        .exit 0 := by
  have hknown : terms.host = Host.cosmwasm1 := List.mem_singleton.1 h.host_known
  have hgranting := h.granting hnone (List.cons_ne_nil _ [])
    (CapabilitySet.separator_notMem_grantText (Policy.markerExports.required iface))
  have hterms : ∀ granted, ({ terms with granted } : Terms) = requiringTerms granted := by
    intro granted
    rw [requiringTerms, hpolicy, hknown]
  have hvalid := hstructured.valid_of_grantable hgrantable
  rw [hterms, List.map_singleton] at hgranting
  rw [hgranting.ending program, exitCode_eq_zero_iff.2 (congrArg some hvalid)]

end Cli.Arguments

/-- **Which contracts the command line can satisfy.**

The sets of capabilities that texts name, split at their commas and stripped, are those of
which every member is not empty, has no comma and is left alone by stripping.

So let an interface pass the four structural checks of the first CosmWasm host, and let the
policy read its marker exports.  Some texts make it valid exactly when each capability that it
asks for has no comma and is left alone by stripping; then one text does.  If one of them is
not so, it is refused for its capabilities whatever the texts are.

The same holds of runs: unless a file names the capabilities, a contract that asks for one
that cannot be written is refused, however the command line is written and whatever the
environment says; and any other has an option that makes a command line without capabilities
accept it, and without a file the environment can say the same. -/
theorem grantable_iff_some_text_valid :
    (∀ set : CapabilitySet, (∃ texts, CapabilitySet.parse texts = set) ↔
      ∀ name ∈ set, name ≠ "" ∧ ',' ∉ name.toList ∧ Text.strip name = name) ∧
    (∀ iface : Interface, iface.Structured →
      ((∃ texts, (assess iface (requiringRequest (.parse texts))).value = .ok .valid) ↔
        iface.Grantable) ∧
      (iface.Grantable →
        ∃ text, (assess iface (requiringRequest (.parse [text]))).value = .ok .valid) ∧
      (¬ iface.Grantable → ∀ texts, ∃ reason,
        (assess iface (requiringRequest (.parse texts))).value =
          .ok (.invalid .capabilities reason))) ∧
    (∀ (program : Cli.Program) (world : Cli.World) (words : List String)
        (arguments : Cli.Arguments) (iface : Interface) (terms : Terms),
      Cli.Arguments.parse words = .ok arguments → arguments.Holds world iface terms →
      terms.policy = .markerExports →
        (¬ iface.Grantable → arguments.options.capabilities ≠ none ∨ arguments.configPath = "" →
          (Cli.run program world words).ending = .exit 1) ∧
        (iface.Structured → iface.Grantable → arguments.options.capabilities = none →
          ∃ text, (Cli.run program world (("--capabilities=" ++ text) :: words)).ending = .exit 0 ∧
            (arguments.configPath = "" →
              (Cli.run program ⟨world.disk,
                { world.environment with capabilities := some text }, world.fault⟩
                words).ending = .exit 0))) := by
  refine ⟨?_, ?_, ?_⟩
  · intro set
    rw [CapabilitySet.exists_parse_iff]
    simp only [CapabilitySet.isName_iff]
  · intro iface hstructured
    simp only [assess_requiringRequest, Except.ok.injEq]
    refine ⟨⟨?_, ?_⟩, ?_, ?_⟩
    · rintro ⟨texts, hvalid⟩
      exact hstructured.grantable_of_valid hvalid
    · intro hgrantable
      exact ⟨_, hstructured.valid_of_grantable hgrantable⟩
    · intro hgrantable
      exact ⟨_, hstructured.valid_of_grantable hgrantable⟩
    · exact hstructured.invalid_of_not_grantable
  · intro program world words arguments iface terms hwords hholds hpolicy
    constructor
    · intro hgrantable hsource
      rw [Cli.run_of_parse hwords]
      exact hholds.ending_of_not_grantable hpolicy hgrantable hsource program
    · intro hstructured hgrantable hnone
      have hending := hholds.ending_of_grantable hpolicy hstructured hgrantable hnone program
      refine ⟨(Policy.markerExports.required iface).grantText, ?_, ?_⟩
      · have hgranting := Cli.Arguments.parse_grantWord_cons
          (Policy.markerExports.required iface).grantText words
        rw [hwords] at hgranting
        rw [← hending]
        exact congrArg Cli.Outcome.ending (Cli.run_of_parse hgranting)
      · intro hpath
        -- What the option grants in one world the environment grants in the other.
        have hsame := Cli.Arguments.run_granting_eq program world.disk world.fault
          world.environment hnone hpath (List.cons_ne_nil _ [])
          (CapabilitySet.separator_notMem_grantText (Policy.markerExports.required iface)) rfl
        rw [Cli.run_of_parse hwords, ← hsame]
        exact hending

/-- The world with a contract that has one more export than it needs. -/
def markedWorld (marker : String) : Cli.World where
  disk := FileTree.disk ⟨[(["a.wasm"], .file (Host.cosmwasm1.leastContract [marker]))]⟩

/-- A contract that asks for `a b` is valid with some text.  One that asks for `a,b` is refused,
though the command line names `a,b`. -/
theorem grantable_iff_some_text_valid_blank_and_comma :
    (∃ text, (Cli.run .command (markedWorld "requires_a b")
        (("--capabilities=" ++ text) :: derivingWords)).ending = .exit 0) ∧
      Cli.Arguments.parse ("--capabilities=a,b" :: derivingWords) =
        .ok (derivingArguments.granting [some "a,b"]) ∧
      ¬ (Host.cosmwasm1.leastInterface ["requires_a,b"]).Grantable ∧
      (Cli.run .command (markedWorld "requires_a,b")
        ("--capabilities=a,b" :: derivingWords)).ending = .exit 1 := by
  have hparse : Cli.Arguments.parse derivingWords = .ok derivingArguments := by decide +kernel
  have hconfig : ∀ marker, derivingArguments.configuration (markedWorld marker) =
      .ok ⟨"cosmwasm-1", "none", []⟩ := fun marker => rfl
  refine ⟨?_, ?_⟩
  · have hholds : derivingArguments.Holds (markedWorld "requires_a b")
        (Host.cosmwasm1.leastInterface ["requires_a b"]) (requiringTerms .empty) :=
      ⟨⟨_, _, hconfig _, rfl, rfl⟩, ⟨Host.cosmwasm1.leastContract ["requires_a b"],
        by decide +kernel, rfl, by decide +kernel⟩⟩
    have hstructured : (Host.cosmwasm1.leastInterface ["requires_a b"]).Structured :=
      ⟨by decide +kernel, by decide +kernel, by decide +kernel, by decide +kernel⟩
    have hgrantable : (Host.cosmwasm1.leastInterface ["requires_a b"]).Grantable := by
      rw [Interface.grantable_iff]
      simp only [CapabilitySet.isName_iff, ← CapabilitySet.mem_toList]
      decide +kernel
    obtain ⟨text, htext, -⟩ := (grantable_iff_some_text_valid.2.2 .command _ _ _ _ _ hparse hholds
      rfl).2 hstructured hgrantable rfl
    exact ⟨text, htext⟩
  · have hwords : Cli.Arguments.parse ("--capabilities=a,b" :: derivingWords) =
        .ok (derivingArguments.granting [some "a,b"]) := by decide +kernel
    have hholds : (derivingArguments.granting [some "a,b"]).Holds (markedWorld "requires_a,b")
        (Host.cosmwasm1.leastInterface ["requires_a,b"]) (requiringTerms (.parse ["a,b"])) :=
      ⟨⟨_, _, hconfig _, rfl, rfl⟩, ⟨Host.cosmwasm1.leastContract ["requires_a,b"],
        by decide +kernel, rfl, by decide +kernel⟩⟩
    have hgrantable : ¬ (Host.cosmwasm1.leastInterface ["requires_a,b"]).Grantable := by
      intro h
      have hcomma := (h ⟨"requires_a,b", "function"⟩ (by decide) "a,b" (by decide) (by decide)).1
      exact hcomma (by decide)
    exact ⟨hwords, hgrantable, (grantable_iff_some_text_valid.2.2 .command _ _ _ _ _ hwords hholds
      rfl).1 hgrantable (Or.inl (by decide))⟩

end ContractAdmission
