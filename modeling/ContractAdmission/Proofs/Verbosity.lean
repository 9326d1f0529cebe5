import ContractAdmission.Proofs.Answers

/-!
# Asking for all records

A run that is asked for all its records does what it does without, and only writes more.  The
level of a record says which of the two it is written by: those for debugging only when all are
asked for, any other either way.

* `Arguments.stdout_want_verbose` — what the answer is does not depend on what is written
  besides it.
* `Arguments.shown_eq_filter` — what is written without the flag, from what is written with it.
* `verbosity_adds_debug_records` — the same run, asked for all its records.
-/

namespace ContractAdmission
namespace Cli
namespace Arguments

variable {arguments : Arguments} {program : Program} {world : World}

/-- The records say nothing to the one who reads the answer. -/
theorem stdout_want_verbose (arguments : Arguments) (program : Program) (world : World) :
    ((arguments.want .verbose).run program world).stdout =
      (arguments.run program world).stdout := by
  have hline : (arguments.want .verbose).verdictLine = arguments.verdictLine := rfl
  unfold run
  rw [check_want, hline]
  dsimp only
  split <;> rfl

theorem shown_want_verbose (arguments : Arguments) (program : Program) (world : World) :
    (arguments.want .verbose).shown program world = (arguments.check program world).records := by
  rw [shown, check_want]
  exact Options.visible_of_verbose _ rfl

/-- What a run writes that was not asked for all its records is what is left, in its order, of
what it writes when it is asked for them. -/
theorem shown_eq_filter (hquiet : arguments.options.verbose = false) :
    arguments.shown program world =
      ((arguments.want .verbose).shown program world).filter (·.level ≠ .debug) := by
  rw [shown_want_verbose]
  exact Options.visible_of_not_verbose _ hquiet

end Arguments
end Cli

/-- **Asking for all records changes nothing but which are written.**

Take a command line that is accepted and does not ask for all records, in any world.  With the
flag that asks for them in front, the run ends the same way, with an exit code or with the same
error that escapes, and answers the same.  What either run writes beside the answer are the
lines of its records, and those of the run without the flag are what is left of those of the
run with it when the ones for debugging are taken out. -/
theorem verbosity_adds_debug_records (program : Cli.Program) (world : Cli.World)
    {words : List String} {arguments : Cli.Arguments}
    (hwords : Cli.Arguments.parse words = .ok arguments)
    (hquiet : arguments.options.verbose = false) :
    let plain := Cli.run program world words
    let verbose := Cli.run program world ("-v" :: words)
    let written := arguments.shown program world
    let writtenVerbose := (arguments.want .verbose).shown program world
    Cli.Arguments.parse ("-v" :: words) = .ok (arguments.want .verbose) ∧
      verbose.ending = plain.ending ∧ verbose.stdout = plain.stdout ∧
      plain.stderr = Cli.textOfLines (written.map Record.line) ∧
      verbose.stderr = Cli.textOfLines (writtenVerbose.map Record.line) ∧
      writtenVerbose = (arguments.check program world).records ∧
      written = writtenVerbose.filter (·.level ≠ .debug) := by
  have hverbose : Cli.Arguments.parse ("-v" :: words) = .ok (arguments.want .verbose) := by
    have hword : Cli.Word.classify "-v" = .ok (.option .verbose .nothing) := by decide +kernel
    rw [Cli.Arguments.parse_cons_flag rfl hword, hwords]
    rfl
  rw [Cli.run_of_parse hwords, Cli.run_of_parse hverbose]
  exact ⟨hverbose, arguments.ending_want .verbose program world,
    arguments.stdout_want_verbose program world, arguments.run_stderr program world,
    (arguments.want .verbose).run_stderr program world,
    arguments.shown_want_verbose program world, Cli.Arguments.shown_eq_filter hquiet⟩

/-- A run that refuses its contract writes what it was about and why.  With the flag it also
writes what the contract holds and which checks it passed. -/
theorem verbosity_adds_debug_records_staking :
    Cli.Arguments.parse requiringWords = .ok requiringArguments ∧
      requiringArguments.options.verbose = false ∧
      ((requiringArguments.want .verbose).shown .command (stakingWorld "" {})).map (·.level) =
        [.info, .debug, .debug, .debug, .debug, .debug, .debug, .info] ∧
      (requiringArguments.shown .command (stakingWorld "" {})).length = 2 ∧
      (Cli.run .command (stakingWorld "" {}) ("-v" :: requiringWords)).ending = .exit 1 := by
  have hwords : Cli.Arguments.parse requiringWords = .ok requiringArguments := by decide +kernel
  have hending : (Cli.run .command (stakingWorld "" {}) requiringWords).ending = .exit 1 := by
    decide +kernel
  have hlevels :
      ((requiringArguments.want .verbose).shown .command (stakingWorld "" {})).map (·.level) =
        [.info, .debug, .debug, .debug, .debug, .debug, .debug, .info] := by decide +kernel
  obtain ⟨-, hsame, -, -, -, -, hwritten⟩ :=
    verbosity_adds_debug_records .command (stakingWorld "" {}) hwords rfl
  refine ⟨hwords, rfl, hlevels, ?_, hsame.trans hending⟩
  rw [hwritten]
  decide +kernel

end ContractAdmission
