import ContractAdmission.Cli.Arguments
import ContractAdmission.Config

/-!
# What a command line gives

The options of an accepted command line are those of its uses of options, taken one
after the other.  The last use of an option decides whether the command line says what a
field is: for capabilities any use does, for the other fields one with a value.

* `usesOf` — the uses of options on a command line, from left to right.
* `Gives` — the command line says what a field is.
* `Arguments.sets_iff_gives` — it does exactly when the parsed options have the field.
-/

namespace ContractAdmission

/-- The option of a field. -/
def Field.opt : Field → Cli.Opt
  | .hostVersion => .hostVersion
  | .policyName => .policy
  | .capabilities => .capabilities

/-- Whether a use of the option of a field says what the field is. -/
def Field.isSetBy : Field → Cli.Use → Bool
  | .capabilities, _ => true
  | _, use => use.value.isSome

namespace Cli

/-- The uses of options in words, from left to right. -/
def usesIn : List (String × Word) → List Use
  | [] => []
  | (_, .option opt attached) :: rest =>
      match Expansion.ofWord opt attached with
      | .error _ => usesIn rest
      | .ok expansion =>
          match expansion.pending, rest with
          | some last, (value, .argument) :: later =>
              (expansion.withValue last value).uses ++ usesIn later
          | _, rest => expansion.uses ++ usesIn rest
  | _ :: rest => usesIn rest

theorem usesIn_of_complete {word : String} {opt : Opt} {attached : Attached}
    {expansion : Expansion} {rest : List (String × Word)}
    (hword : Expansion.ofWord opt attached = .ok expansion) (hpending : expansion.pending = none) :
    usesIn ((word, .option opt attached) :: rest) = expansion.uses ++ usesIn rest := by
  simp only [usesIn, hword, hpending]

theorem usesIn_of_pending {word value : String} {opt last : Opt} {attached : Attached}
    {expansion : Expansion} {later : List (String × Word)}
    (hword : Expansion.ofWord opt attached = .ok expansion)
    (hpending : expansion.pending = some last) :
    usesIn ((word, .option opt attached) :: (value, .argument) :: later) =
      (expansion.withValue last value).uses ++ usesIn later := by
  simp only [usesIn, hword, hpending]

/-- The uses of options on a command line. -/
def usesOf (words : List String) : List Use :=
  match Word.classifyAll words with
  | .error _ => []
  | .ok classified => usesIn classified

/-- A command line gives a field when the last use of its option says what it is. -/
def Gives (words : List String) (field : Field) : Prop :=
  ∃ use, ((usesOf words).filter fun use => use.opt = field.opt).getLast? = some use ∧
    field.isSetBy use = true

namespace Options

/-- Whether options say what a field is. -/
def sets (options : Options) : Field → Bool
  | .hostVersion => options.hostVersion.isSome
  | .policyName => options.policyName.isSome
  | .capabilities => options.capabilities.isSome

theorem set_of_take {options next : Options} {use : Use} (h : options.take use = .ok next) :
    options.set use = .ok next := by
  unfold take at h
  split at h
  · exact h
  · split at h
    · exact h
    · cases h

/-- One more use decides about the field of its option and leaves the others. -/
theorem sets_of_take {options next : Options} {use : Use} (field : Field)
    (h : options.take use = .ok next) :
    next.sets field = if use.opt = field.opt then field.isSetBy use else options.sets field := by
  have hset := set_of_take h
  -- Each option sets its own component, and each field reads one component.
  obtain ⟨opt, value⟩ := use
  cases opt with
  | help => cases hset
  | capabilities => cases hset; cases field <;> rfl
  | hostVersion => cases hset; cases field <;> rfl
  | policy => cases hset; cases field <;> rfl
  | config => cases hset; cases field <;> rfl
  | json => cases hset; cases field <;> rfl
  | verbose => cases hset; cases field <;> rfl

/-- Of several uses the last one of the option of a field decides. -/
theorem sets_of_takeAll {options final : Options} {uses : List Use} (field : Field)
    (h : options.takeAll uses = .ok final) :
    final.sets field =
      ((uses.filter fun use => use.opt = field.opt).getLast?.map field.isSetBy).getD
        (options.sets field) := by
  induction uses generalizing options with
  | nil =>
      cases h
      rfl
  | cons use rest ih =>
      rw [takeAll, List.foldlM_cons] at h
      cases htake : options.take use with
      | error stop =>
          rw [htake] at h
          cases h
      | ok next =>
          rw [htake] at h
          -- The later uses decide first, and this one only if they leave the option alone.
          rw [ih h, sets_of_take field htake]
          by_cases hopt : use.opt = field.opt
          · rw [if_pos hopt, List.filter_cons_of_pos (by simpa using hopt), List.getLast?_cons]
            cases (rest.filter fun use => use.opt = field.opt).getLast? <;> rfl
          · rw [if_neg hopt, List.filter_cons_of_neg (by simpa using hopt)]

theorem takeAll_append {options middle final : Options} {first second : List Use}
    (hfirst : options.takeAll first = .ok middle) (hsecond : middle.takeAll second = .ok final) :
    options.takeAll (first ++ second) = .ok final := by
  unfold takeAll at hfirst hsecond ⊢
  rw [List.foldlM_append, hfirst]
  exact hsecond

end Options

namespace Draft

theorem takeAll_of_take {draft next : Draft} {expansion : Expansion}
    (h : draft.take expansion = .ok next) :
    draft.options.takeAll expansion.uses = .ok next.options := by
  unfold take at h
  cases htake : draft.options.takeAll expansion.uses with
  | error stop =>
      rw [htake] at h
      cases h
  | ok options =>
      rw [htake] at h
      cases h
      rfl

/-- The options after all words are those after the uses in them. -/
theorem takeAll_usesIn {draft final : Draft} {words : List (String × Word)}
    (h : draft.read words = .ok final) :
    draft.options.takeAll (usesIn words) = .ok final.options := by
  -- Words that are no options set a path or are set aside, and add no use.
  fun_induction Draft.read draft words with
  | case1 draft =>
      cases h
      rfl
  | case2 draft word next later hpath ih => exact ih h
  | case3 draft word rest hrest hpath ih => exact ih h
  | case4 draft word path rest hpath ih => exact ih h
  | case5 draft word next later hpath ih => exact ih h
  | case6 draft word rest hrest ih => exact ih h
  | case7 draft word rest ih => exact ih h
  | case8 => cases h
  | case9 => cases h
  | case10 draft word opt attached expansion hword rest hpending next htake ih =>
      rw [usesIn_of_complete hword hpending]
      exact Options.takeAll_append (takeAll_of_take htake) (ih h)
  | case11 => cases h
  | case12 draft word opt attached expansion hword last value later hpending next htake ih =>
      rw [usesIn_of_pending hword hpending]
      exact Options.takeAll_append (takeAll_of_take htake) (ih h)
  | case13 => cases h

theorem options_of_finish {draft : Draft} {arguments : Arguments}
    (h : draft.finish = .ok arguments) : arguments.options = draft.options := by
  unfold finish at h
  split at h
  · cases h
  · cases h
    rfl
  · cases h

end Draft

namespace Arguments

/-- The options of an accepted command line are what its uses of options make of the
empty ones. -/
theorem takeAll_usesOf {words : List String} {arguments : Arguments}
    (h : parse words = .ok arguments) :
    ({} : Options).takeAll (usesOf words) = .ok arguments.options := by
  unfold parse at h
  unfold usesOf
  cases hclassified : Word.classifyAll words with
  | error error =>
      rw [hclassified] at h
      cases h
  | ok classified =>
      rw [hclassified] at h
      dsimp only at h ⊢
      split at h
      · cases h
      · rename_i draft hread
        rw [Draft.options_of_finish h]
        exact Draft.takeAll_usesIn hread

example : usesOf ["-vc", "staking", "a.wasm", "--host-v=cosmwasm-1"] =
    [⟨.verbose, none⟩, ⟨.capabilities, some "staking"⟩, ⟨.hostVersion, some "cosmwasm-1"⟩] := by
  decide +kernel

/-- The options of an accepted command line say what a field is exactly when the command
line gives it. -/
theorem sets_iff_gives {words : List String} {arguments : Arguments} (field : Field)
    (h : parse words = .ok arguments) :
    arguments.options.sets field = true ↔ Gives words field := by
  rw [Options.sets_of_takeAll field (takeAll_usesOf h)]
  -- A command line starts from options that set nothing.
  have hempty : ({} : Options).sets field = false := by cases field <;> rfl
  unfold Gives
  cases ((usesOf words).filter fun use => use.opt = field.opt).getLast? with
  | none => simp [hempty]
  | some use => simp

end Arguments
end Cli
end ContractAdmission
