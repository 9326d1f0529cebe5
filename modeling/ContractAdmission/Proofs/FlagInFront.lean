import ContractAdmission.Proofs.CommandLine
import Mathlib.Data.List.Basic

/-!
# A flag in front of a command line

A flag is an option that only says that something is wanted.  In front of a command line it
changes none of the other words: what is read is what would be read without it, with one
more thing wanted, and what stops the reading without it stops it still.

* `Options.want` — options with one more thing wanted.
* `Draft.read_mapOptions` — reading commutes with every change of options that commutes with
  their uses, word by word.
* `Arguments.parse_cons_flag` — a command line with a flag in front.
-/

namespace ContractAdmission
namespace Cli

/-- An option that takes no value and does not stop the reading. -/
def Opt.isFlag : Opt → Bool
  | .json | .verbose => true
  | _ => false

/-- Options with one more thing wanted. -/
def Options.want (opt : Opt) (options : Options) : Options :=
  match opt with
  | .json => { options with json := true }
  | .verbose => { options with verbose := true }
  | _ => options

/-- What is known after some of the words, with one more thing wanted. -/
def Draft.want (opt : Opt) (draft : Draft) : Draft :=
  { draft with options := draft.options.want opt }

/-- Arguments with one more thing wanted. -/
def Arguments.want (opt : Opt) (arguments : Arguments) : Arguments :=
  { arguments with options := arguments.options.want opt }

/-- A change of options that makes no difference to later uses, and to which they make
none. -/
def Options.Steady (f : Options → Options) : Prop :=
  ∀ (options : Options) (use : Use), (f options).set use = (options.set use).map f

/-- What is known after some of the words, with other options. -/
def Draft.mapOptions (f : Options → Options) (draft : Draft) : Draft :=
  { draft with options := f draft.options }

namespace Options

variable {f : Options → Options}

theorem Steady.take (hf : Steady f) (options : Options) (use : Use) :
    (f options).take use = (options.take use).map f := by
  unfold Options.take
  split
  · exact hf options use
  · split
    · exact hf options use
    · rfl

theorem Steady.takeAll (hf : Steady f) (options : Options) (uses : List Use) :
    (f options).takeAll uses = (options.takeAll uses).map f := by
  induction uses generalizing options with
  | nil => rfl
  | cons use rest ih =>
      have hfirst := hf.take options use
      simp only [Options.takeAll, List.foldlM_cons] at ih ⊢
      rw [hfirst]
      cases options.take use with
      | error stop => rfl
      | ok next => exact ih next

/-- Flags are only ever raised, so it does not matter when. -/
theorem steady_want (opt : Opt) : Steady (want opt) := by
  intro options use
  obtain ⟨used, value⟩ := use
  cases opt <;> cases used <;> rfl

end Options

namespace Draft

variable {f : Options → Options}

@[simp] theorem mapOptions_path (draft : Draft) : (draft.mapOptions f).path = draft.path := rfl

theorem take_mapOptions (hf : Options.Steady f) (draft : Draft) (expansion : Expansion) :
    (draft.mapOptions f).take expansion = (draft.take expansion).map (mapOptions f) := by
  have hall := hf.takeAll draft.options expansion.uses
  simp only [take, mapOptions] at hall ⊢
  rw [hall]
  cases draft.options.takeAll expansion.uses with
  | error stop => rfl
  | ok options => rfl

/-- Reading words with options that were changed is reading them, and then changing the
options. -/
theorem read_mapOptions (hf : Options.Steady f) (draft : Draft) (words : List (String × Word)) :
    (draft.mapOptions f).read words = (draft.read words).map (mapOptions f) := by
  -- Options are looked at nowhere, so either side goes the same way at each word.
  fun_induction Draft.read draft words
  case case1 => rfl
  case case2 hpath ih | case3 hpath ih | case4 hpath ih | case5 hpath ih =>
    rw [Draft.read.eq_def]
    simp only [mapOptions_path, hpath]
    exact ih
  case case6 ih =>
    rw [Draft.read.eq_def]
    simp only [mapOptions_path]
    exact ih
  case case7 ih =>
    rw [Draft.read.eq_def]
    exact ih
  case case8 hword =>
    rw [Draft.read.eq_def]
    simp only [hword]
    rfl
  case case9 hword rest hpending stop htake =>
    rw [Draft.read.eq_def]
    simp only [hword, hpending, take_mapOptions hf, htake]
    rfl
  case case10 hword rest hpending next htake ih =>
    rw [Draft.read.eq_def]
    simp only [hword, hpending, take_mapOptions hf, htake]
    exact ih
  case case11 hword last value later hpending stop htake =>
    rw [Draft.read.eq_def]
    simp only [hword, hpending, take_mapOptions hf, htake]
    rfl
  case case12 hword last value later hpending next htake ih =>
    rw [Draft.read.eq_def]
    simp only [hword, hpending, take_mapOptions hf, htake]
    exact ih
  case case13 hword last hpending hnone =>
    rw [Draft.read.eq_def]
    simp only [hword, hpending]
    rfl

/-- Reading words with one more thing wanted is reading them, and then wanting it. -/
theorem read_want (opt : Opt) (draft : Draft) (words : List (String × Word)) :
    (draft.want opt).read words = (draft.read words).map (want opt) :=
  read_mapOptions (Options.steady_want opt) draft words

theorem finish_mapOptions (draft : Draft) :
    (draft.mapOptions f).finish =
      draft.finish.map fun arguments => { arguments with options := f arguments.options } := by
  obtain ⟨path, options, unrecognized⟩ := draft
  cases path with
  | none => rfl
  | some path => cases unrecognized <;> rfl

end Draft

namespace Arguments

variable {opt : Opt}

/-- A word that is a flag does not stop the reading of a command line. -/
theorem read_flag (hflag : opt.isFlag = true) (word : String) (rest : List (String × Word)) :
    ({} : Draft).read ((word, .option opt .nothing) :: rest) =
      (({} : Draft).want opt).read rest := by
  cases opt with
  | json => rfl
  | verbose => rfl
  | _ => cases hflag

/-- **A flag in front of a command line adds what it says and changes nothing else.**  The
command line is accepted exactly when it is without the flag, and stopped for the same
reason. -/
theorem parse_cons_flag (hflag : opt.isFlag = true) {word : String}
    (hword : Word.classify word = .ok (.option opt .nothing)) (words : List String) :
    parse (word :: words) = (parse words).map (want opt) := by
  unfold parse
  rw [Word.classifyAll, hword]
  cases Word.classifyAll words with
  | error error => rfl
  | ok classified =>
      simp only [Except.map]
      rw [read_flag hflag, Draft.read_want]
      cases ({} : Draft).read classified with
      | error stop => rfl
      | ok draft => exact Draft.finish_mapOptions draft

example : parse ["--json", "a.wasm", "-c", "staking"] =
    .ok ⟨"a.wasm", { capabilities := some [some "staking"], json := true }⟩ := by
  decide +kernel

end Arguments
end Cli
end ContractAdmission
