import ContractAdmission.Proofs.Admissible
import ContractAdmission.Proofs.Answers
import ContractAdmission.Proofs.Diagnosis

/-!
# The lines of an answer

The plain answer of a run is a line that tells the verdict.  The reason for a refusal shows
names as the contract has them, and a name can have a line feed in it; so the answer can go on
over further lines, and the author of the contract can choose what these say.  The first line
is beyond the reach of the contract.

* `Cli.LinesOf` — the lines of a text.
* `Defect.chosen` — the names in a report that come from the exports of the contract.
* `Check.newline_mem_message_iff` — a report has a line feed only inside such a name.
* `answer_first_line` — what the first line says, and when there are no others.
* `answer_forged` — a contract that is refused, and an answer with a line that says it is valid.
-/

namespace ContractAdmission
namespace Cli

/-! ### Lines -/

/-- The lines of a text: they stand in it one after the other, each with its end, and have no
line feed inside. -/
structure LinesOf (text : String) (lines : List String) : Prop where
  whole : textOfLines lines = text
  unbroken : ∀ line ∈ lines, '\n' ∉ line.toList

theorem toList_textOfLines_cons (line : String) (rest : List String) :
    (textOfLines (line :: rest)).toList = line.toList ++ '\n' :: (textOfLines rest).toList := by
  simp [textOfLines]

namespace LinesOf

variable {text line first : String} {rest lines : List String}

/-- A text has as many lines as line feeds. -/
theorem length_eq_count (h : LinesOf text lines) : lines.length = text.toList.count '\n' := by
  obtain ⟨rfl, hunbroken⟩ := h
  induction lines with
  | nil => rfl
  | cons line rest ih =>
      have hline : line.toList.count '\n' = 0 := List.count_eq_zero.2 (hunbroken line (by simp))
      have hrest := ih fun other hother => hunbroken other (List.mem_cons_of_mem line hother)
      rw [toList_textOfLines_cons, List.count_append, hline, List.count_cons_self, ← hrest]
      simp

/-- Whatever ends with a line feed has lines. -/
theorem exists_cons (chars : List Char) :
    ∃ first rest, LinesOf (String.ofList chars ++ "\n") (first :: rest) := by
  induction chars with
  | nil => exact ⟨"", [], by simp [textOfLines], by simp⟩
  | cons c chars ih =>
      obtain ⟨first, rest, hwhole, hunbroken⟩ := ih
      by_cases hc : c = '\n'
      · subst hc
        refine ⟨"", first :: rest, ?_, ?_⟩
        · rw [← String.toList_inj, toList_textOfLines_cons, hwhole]
          simp
        · simpa using hunbroken
      · refine ⟨String.ofList (c :: first.toList), rest, ?_, ?_⟩
        · rw [← String.toList_inj] at hwhole ⊢
          rw [toList_textOfLines_cons] at hwhole ⊢
          simp only [String.toList_append, String.toList_ofList, String.reduceToList,
            List.cons_append, List.cons.injEq, true_and] at hwhole ⊢
          exact hwhole
        · simp only [List.mem_cons, forall_eq_or_imp, String.toList_ofList, not_or] at hunbroken ⊢
          exact ⟨⟨Ne.symm hc, hunbroken.1⟩, hunbroken.2⟩

/-- What stands in front of a text without a line feed in it belongs to the first line. -/
theorem append (h : LinesOf text (first :: rest)) {front : String}
    (hfront : '\n' ∉ front.toList) : LinesOf (front ++ text) ((front ++ first) :: rest) := by
  obtain ⟨rfl, hunbroken⟩ := h
  constructor
  · rw [← String.toList_inj, toList_textOfLines_cons]
    simp [toList_textOfLines_cons]
  · simp only [List.mem_cons, forall_eq_or_imp, String.toList_append, List.mem_append,
      not_or] at hunbroken ⊢
    exact ⟨⟨hfront, hunbroken.1⟩, hunbroken.2⟩

theorem single (h : '\n' ∉ line.toList) : LinesOf (line ++ "\n") [line] :=
  ⟨by simp [textOfLines], by simpa using h⟩

/-- There is one line exactly when there is no line feed before the last. -/
theorem rest_eq_nil_iff (h : LinesOf (line ++ "\n") (first :: rest)) :
    rest = [] ↔ '\n' ∉ line.toList := by
  have hcount := h.length_eq_count
  simp only [List.length_cons, String.toList_append, String.reduceToList, List.count_append,
    List.count_cons_self, List.count_nil, zero_add, Nat.add_right_cancel_iff] at hcount
  rw [← List.length_eq_zero_iff, ← List.count_eq_zero, hcount]

end LinesOf
end Cli

/-! ### Names in a report -/

/-- The names in a report that the author of the contract has chosen. -/
def Defect.chosen : Defect → List String
  | .unknownMarker marker _ _ => [marker]
  | .missingCapabilities missing => missing
  | _ => []

theorem mem_append_iff_left {c : Char} {text tail : String} (h : c ∉ tail.toList) :
    c ∈ (text ++ tail).toList ↔ c ∈ text.toList := by
  simp [h]

theorem mem_append_iff_right {c : Char} {lead text : String} (h : c ∉ lead.toList) :
    c ∈ (lead ++ text).toList ↔ c ∈ text.toList := by
  simp [h]

theorem mem_intercalate_iff {c : Char} {separator : String} (h : c ∉ separator.toList)
    (names : List String) :
    c ∈ (separator.intercalate names).toList ↔ ∃ name ∈ names, c ∈ name.toList := by
  induction names with
  | nil => simp
  | cons name rest ih =>
      cases rest with
      | nil => simp
      | cons next rest =>
          rw [String.intercalate_cons_cons]
          simp only [String.toList_append, List.mem_append, ih, h, or_false, List.mem_cons,
            exists_eq_or_imp]

theorem Defect.newline_mem_quoteNames_iff (names : List String) :
    '\n' ∈ (quoteNames names).toList ↔ ∃ name ∈ names, '\n' ∈ name.toList := by
  rw [quoteNames, mem_intercalate_iff (by decide)]
  simp

/-- The names in the table of a known host have no line feed. -/
theorem Host.newline_notMem_of_known {host : Host} (h : host ∈ Host.known) :
    '\n' ∉ host.version.toList ∧ '\n' ∉ (Defect.quoteNames host.interfaceVersions).toList ∧
      '\n' ∉ (Defect.quoteNames host.requiredExports).toList ∧
      '\n' ∉ (Defect.quoteNames host.requiredImports).toList := by
  obtain rfl : host = cosmwasm1 := List.mem_singleton.1 h
  simp only [Defect.newline_mem_quoteNames_iff]
  decide +kernel

theorem Defect.newline_notMem_missing {required : List String}
    (h : '\n' ∉ (quoteNames required).toList) (present : List String) :
    '\n' ∉ (quoteNames (Check.missing required present)).toList := by
  rw [newline_mem_quoteNames_iff] at h ⊢
  rintro ⟨name, hname, hnewline⟩
  exact h ⟨name, (List.mem_filter.1 hname).1, hnewline⟩

namespace Check

variable {iface : Interface} {terms : Terms} {stage : Stage} {defect : Defect}

/-- A report on a contract has a line feed exactly when a name has one that the author of the
contract has chosen: the words around the names have none, and the table of the host has none
either. -/
theorem newline_mem_message_iff (hhost : terms.host ∈ Host.known)
    (h : run iface terms stage = some defect) :
    '\n' ∈ defect.message.toList ↔ ∃ name ∈ defect.chosen, '\n' ∈ name.toList := by
  obtain ⟨hversion, hversions, hexports, himports⟩ := Host.newline_notMem_of_known hhost
  cases reports_of_run h with
  | noMemory => decide
  | severalMemories => decide
  | noMarker => decide
  | severalMarkers => decide
  | unknownMarker marker hmarker =>
      unfold Defect.message Defect.chosen
      dsimp only
      rw [mem_append_iff_left (by decide +kernel), mem_append_iff_left hversions,
        mem_append_iff_left (by decide +kernel), mem_append_iff_left hversion,
        mem_append_iff_left (by decide +kernel), mem_append_iff_right (by decide +kernel)]
      simp
  | missingExports =>
      have hmissing := Defect.newline_notMem_missing hexports iface.exportNames
      unfold Defect.message Defect.chosen
      dsimp only [lacking]
      rw [mem_append_iff_left (by decide +kernel), mem_append_iff_left hexports,
        mem_append_iff_left (by decide +kernel), mem_append_iff_left hmissing]
      decide +kernel
  | missingImports =>
      have hmissing := Defect.newline_notMem_missing himports iface.qualifiedNames
      unfold Defect.message Defect.chosen
      dsimp only [lacking]
      rw [mem_append_iff_left (by decide +kernel), mem_append_iff_left himports,
        mem_append_iff_left (by decide +kernel), mem_append_iff_left hmissing]
      decide +kernel
  | missingCapabilities =>
      unfold Defect.message Defect.chosen
      dsimp only
      rw [mem_append_iff_right (by decide +kernel), mem_intercalate_iff (by decide +kernel)]

/-- The names in a report that the author of the contract has chosen are export names, or
follow the marker prefix in export names. -/
theorem exported_of_mem_chosen (h : run iface terms stage = some defect) {name : String}
    (hname : name ∈ defect.chosen) :
    name ∈ iface.exportNames ∨ "requires_" ++ name ∈ iface.exportNames := by
  cases reports_of_run h with
  | noMemory => cases hname
  | severalMemories => cases hname
  | noMarker => cases hname
  | severalMarkers => cases hname
  | unknownMarker marker hmarker =>
      obtain rfl : name = marker := List.mem_singleton.1 hname
      exact Or.inl hmarker
  | missingExports => cases hname
  | missingImports => cases hname
  | missingCapabilities =>
      have hrequired := (CapabilitySet.mem_diff.1 (CapabilitySet.mem_toList.1 hname)).1
      cases hpolicy : terms.policy with
      | unrestricted =>
          rw [hpolicy] at hrequired
          exact absurd hrequired (CapabilitySet.not_mem_empty name)
      | markerExports =>
          rw [hpolicy] at hrequired
          obtain ⟨marker, hmarker, hasked⟩ :=
            List.mem_filterMap.1 (CapabilitySet.mem_ofList.1 hrequired)
          obtain ⟨-, rfl⟩ := Policy.markedCapability?_eq_some_iff.1 hasked
          exact Or.inr hmarker

end Check

/-! ### The answer -/

namespace Cli.Arguments

variable {arguments : Arguments} {world : World}

/-- A run holds the interface of its contract against terms. -/
structure Holds (arguments : Arguments) (world : World) (iface : Interface) (terms : Terms) :
    Prop where
  asked : ∃ config request, arguments.configuration world = .ok config ∧
    arguments.request? config = some request ∧ request.terms = .ok terms
  read : ∃ bytes, world.disk.look arguments.path = .file bytes ∧ world.fault = none ∧
    Wasm.compile {} bytes = .ok iface

theorem Holds.host_known {iface : Interface} {terms : Terms}
    (h : arguments.Holds world iface terms) : terms.host ∈ Host.known := by
  obtain ⟨config, request, -, -, hterms⟩ := h.asked
  exact Host.mem_known_of_resolve (Request.resolve_of_terms hterms)

/-- The verdict of a run is that on the interface of its contract. -/
theorem exists_holds_of_judges {request : Request} {verdict : Verdict}
    (h : arguments.Judges world request verdict) :
    ∃ iface terms, arguments.Holds world iface terms ∧
      verdict = .ofDefect? (diagnose iface terms) := by
  obtain ⟨⟨config, hconfig, hrequest⟩, hjudged⟩ := h
  unfold checkContract at hjudged
  split at hjudged
  · cases hjudged
  · cases hjudged
  · cases hjudged
  · rename_i bytes hlook
    split at hjudged
    · cases hjudged
    · rename_i hfault
      cases hcompile : Wasm.compile {} bytes with
      | error error => simp [validate, hcompile, Logged.pure] at hjudged
      | ok iface =>
          cases hterms : request.terms with
          | error error =>
              simp [validate, hcompile, assess, hterms, Logged.pure, Except.mapError] at hjudged
          | ok terms =>
              have hholds : arguments.Holds world iface terms :=
                ⟨⟨config, request, hconfig, hrequest, hterms⟩, ⟨bytes, hlook, hfault, hcompile⟩⟩
              refine ⟨iface, terms, hholds, ?_⟩
              rw [← judge_value]
              simp [validate, hcompile, assess, hterms, Logged.mapValue,
                Except.mapError] at hjudged
              exact hjudged.symm

/-- How a line begins that tells a refusal at a stage. -/
def refusalHead (arguments : Arguments) (stage : Stage) : String :=
  arguments.path ++ ": invalid (" ++ stage.kind ++ "): "

theorem newline_notMem_refusalHead (hpath : '\n' ∉ arguments.path.toList) (stage : Stage) :
    '\n' ∉ (arguments.refusalHead stage).toList := by
  unfold refusalHead
  rw [mem_append_iff_left (by decide), mem_append_iff_left (by cases stage <;> decide),
    mem_append_iff_left (by decide)]
  exact hpath

/-- No line that tells a refusal is the one that says that the contract is valid. -/
theorem valid_ne_refusalHead (stage : Stage) (tail : String) :
    arguments.path ++ ": valid" ≠ arguments.refusalHead stage ++ tail := by
  intro hsame
  have hchars := congrArg String.toList hsame
  simp [refusalHead] at hchars

theorem verdictLine_valid (hplain : arguments.options.json = false) :
    arguments.verdictLine .valid = arguments.path ++ ": valid" := by
  simp [verdictLine, hplain]

theorem verdictLine_invalid (hplain : arguments.options.json = false) (stage : Stage)
    (reason : String) :
    arguments.verdictLine (.invalid stage reason) = arguments.refusalHead stage ++ reason := by
  simp [verdictLine, refusalHead, hplain]

/-- The lines of an answer that tells a refusal.  The reason has lines of its own, and the first
of them goes on after the head. -/
theorem exists_lines_of_refusal {iface : Interface} {terms : Terms} {stage : Stage}
    {defect : Defect} (hpath : '\n' ∉ arguments.path.toList)
    (hhost : terms.host ∈ Host.known) (h : Check.run iface terms stage = some defect) :
    ∃ tail rest,
      LinesOf (arguments.refusalHead defect.stage ++ defect.message ++ "\n")
        ((arguments.refusalHead defect.stage ++ tail) :: rest) ∧
      (rest = [] ↔ ∀ name ∈ defect.chosen, '\n' ∉ name.toList) := by
  obtain ⟨tail, rest, htail⟩ := LinesOf.exists_cons defect.message.toList
  rw [String.ofList_toList] at htail
  refine ⟨tail, rest, ?_, ?_⟩
  · rw [String.append_assoc]
    exact htail.append (newline_notMem_refusalHead hpath defect.stage)
  · rw [htail.rest_eq_nil_iff, Check.newline_mem_message_iff hhost h]
    push Not
    rfl

end Cli.Arguments

/-- **The first line of a plain answer tells the verdict, and only the names that a refusal
shows can add others.**

Take a command line that is accepted and does not ask for JSON, with a path without line feeds,
in a world in which its run ends with zero or one.  The first line of the answer says that the
contract is valid exactly when the code is zero, and begins as a refusal exactly when it is one,
with the kind of the stage that failed.  A valid contract has no further line.  A refusal has
none exactly when no name in the reason that the author of the contract has chosen has a line
feed; these are export names, or the ends of export names that ask for a capability.  So where
no export name has a line feed, the answer is one line, and no line of a refusal says that the
contract is valid. -/
theorem answer_first_line (program : Cli.Program) (world : Cli.World) {words : List String}
    {arguments : Cli.Arguments} {code : Nat}
    (hwords : Cli.Arguments.parse words = .ok arguments)
    (hplain : arguments.options.json = false) (hpath : '\n' ∉ arguments.path.toList)
    (hending : (Cli.run program world words).ending = .exit code) (hcode : code < 2) :
    ∃ first rest iface terms,
      Cli.LinesOf (Cli.run program world words).stdout (first :: rest) ∧
      arguments.Holds world iface terms ∧
      (code = 0 ↔ first = arguments.path ++ ": valid") ∧
      (code = 1 ↔ ∃ stage tail, first = arguments.refusalHead stage ++ tail) ∧
      (code = 0 → diagnose iface terms = none ∧ rest = []) ∧
      (code = 1 → ∃ defect tail, diagnose iface terms = some defect ∧
        first = arguments.refusalHead defect.stage ++ tail ∧
        (rest = [] ↔ ∀ name ∈ defect.chosen, '\n' ∉ name.toList) ∧
        ∀ name ∈ defect.chosen,
          name ∈ iface.exportNames ∨ "requires_" ++ name ∈ iface.exportNames) ∧
      ((∀ name ∈ iface.exportNames, '\n' ∉ name.toList) →
        rest = [] ∧ (code = 1 → arguments.path ++ ": valid" ∉ first :: rest)) := by
  rw [Cli.run_of_parse hwords] at hending ⊢
  obtain ⟨answer, hvalue, rfl⟩ := Cli.Arguments.exists_answer_of_exit hending
  rcases Cli.Arguments.answer_cases hvalue with ⟨rfl, -⟩ | ⟨request, verdict, rfl, hjudges, -⟩
  · exact absurd hcode (Nat.lt_irrefl 2)
  · obtain ⟨iface, terms, hholds, rfl⟩ := Cli.Arguments.exists_holds_of_judges hjudges
    rw [Cli.Arguments.stdout_of_check hvalue]
    cases hfound : diagnose iface terms with
    | none =>
        have hline : '\n' ∉ (arguments.path ++ ": valid").toList := by
          rw [mem_append_iff_left (by decide)]
          exact hpath
        refine ⟨arguments.path ++ ": valid", [], iface, terms, ?_, hholds, ?_, ?_, ?_, ?_, ?_⟩
        · rw [Verdict.ofDefect?, Cli.Arguments.verdictLine_valid hplain]
          exact Cli.LinesOf.single hline
        · exact iff_of_true rfl rfl
        · refine iff_of_false (by decide) ?_
          rintro ⟨stage, tail, hsame⟩
          exact Cli.Arguments.valid_ne_refusalHead stage tail hsame
        · exact fun _ => ⟨hfound, rfl⟩
        · intro hrefused
          cases hrefused
        · intro _
          refine ⟨rfl, fun hrefused => ?_⟩
          cases hrefused
    | some defect =>
        have hrun := (diagnose_eq_some_iff.1 hfound).1
        obtain ⟨tail, rest, hlines, hrest⟩ :=
          Cli.Arguments.exists_lines_of_refusal hpath hholds.host_known hrun
        have hchosen : ∀ name ∈ defect.chosen,
            name ∈ iface.exportNames ∨ "requires_" ++ name ∈ iface.exportNames :=
          fun name hname => Check.exported_of_mem_chosen hrun hname
        refine ⟨arguments.refusalHead defect.stage ++ tail, rest, iface, terms, ?_, hholds,
          ?_, ?_, ?_, ?_, ?_⟩
        · rw [Verdict.ofDefect?, Cli.Arguments.verdictLine_invalid hplain]
          exact hlines
        · refine iff_of_false (by simp [Verdict.ofDefect?, Cli.exitCode]) ?_
          intro hsame
          exact Cli.Arguments.valid_ne_refusalHead defect.stage tail hsame.symm
        · exact iff_of_true rfl ⟨defect.stage, tail, rfl⟩
        · intro hvalid
          cases hvalid
        · intro _
          exact ⟨defect, tail, hfound, rfl, hrest, hchosen⟩
        · intro hexports
          have hquiet : ∀ name ∈ defect.chosen, '\n' ∉ name.toList := by
            intro name hname hnewline
            rcases hchosen name hname with hexported | hmarker
            · exact hexports name hexported hnewline
            · exact hexports _ hmarker (by simp [hnewline])
          obtain rfl := hrest.2 hquiet
          refine ⟨rfl, fun _ hmem => ?_⟩
          exact Cli.Arguments.valid_ne_refusalHead defect.stage tail (List.mem_singleton.1 hmem)

/-- A refusal for want of a capability begins as one. -/
theorem answer_first_line_staking :
    Cli.Arguments.parse requiringWords = .ok requiringArguments ∧
      requiringArguments.options.json = false ∧ '\n' ∉ requiringArguments.path.toList ∧
      (Cli.run .command (stakingWorld "" {}) requiringWords).ending = .exit 1 ∧
      ∃ first rest stage tail,
        Cli.LinesOf (Cli.run .command (stakingWorld "" {}) requiringWords).stdout
          (first :: rest) ∧
        first = requiringArguments.refusalHead stage ++ tail := by
  have hwords : Cli.Arguments.parse requiringWords = .ok requiringArguments := by decide +kernel
  have hpath : '\n' ∉ requiringArguments.path.toList := by decide
  have hending : (Cli.run .command (stakingWorld "" {}) requiringWords).ending = .exit 1 := by
    decide +kernel
  obtain ⟨first, rest, iface, terms, hlines, -, -, hrefused, -⟩ :=
    answer_first_line .command (stakingWorld "" {}) hwords rfl hpath hending (by decide)
  obtain ⟨stage, tail, hfirst⟩ := hrefused.1 rfl
  exact ⟨hwords, rfl, hpath, hending, first, rest, stage, tail, hlines, hfirst⟩

/-- The world in which a contract requires a capability that has two lines for a name. -/
def forgingWorld : Cli.World where
  disk := FileTree.disk
    ⟨[(["a.wasm"], .file (Host.cosmwasm1.leastContract ["requires_x\na.wasm: valid"]))]⟩

/-- A contract is refused, and the last line of the answer says that it is valid: the answer is
not one line, and the author of the contract has chosen what it says. -/
theorem answer_forged :
    Cli.Arguments.parse requiringWords = .ok requiringArguments ∧
      requiringArguments.options.json = false ∧ '\n' ∉ requiringArguments.path.toList ∧
      (Cli.run .command forgingWorld requiringWords).ending = .exit 1 ∧
      Cli.LinesOf (Cli.run .command forgingWorld requiringWords).stdout
        ["a.wasm: invalid (capabilities): missing capability: x", "a.wasm: valid"] ∧
      ∀ line, ¬ Cli.LinesOf (Cli.run .command forgingWorld requiringWords).stdout [line] := by
  have hrun : Cli.run .command forgingWorld requiringWords =
      { stdout := "a.wasm: invalid (capabilities): missing capability: x\na.wasm: valid\n"
        stderr := Cli.textOfLines
          ["INFO:cwcheck.validator:Checking contract a.wasm (410 bytes)",
            "INFO:cwcheck.validator:Wasm contract failed capabilities check: " ++
              "missing capability: x\na.wasm: valid"]
        ending := .exit 1 } := by decide +kernel
  rw [hrun]
  have hlines : Cli.LinesOf
      "a.wasm: invalid (capabilities): missing capability: x\na.wasm: valid\n"
      ["a.wasm: invalid (capabilities): missing capability: x", "a.wasm: valid"] :=
    ⟨by decide, by decide⟩
  refine ⟨by decide +kernel, rfl, by decide, rfl, hlines, ?_⟩
  intro line hsingle
  have hcount := hlines.length_eq_count.trans hsingle.length_eq_count.symm
  cases hcount

end ContractAdmission
