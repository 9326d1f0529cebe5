import ContractAdmission.Cli.Word

/-!
# Arguments of the command line

From the words of a command line to the path of a contract and the options.  The
words are read from left to right, and the first thing that stops the reading is
what is reported; words that nothing takes are reported last.

An option that is given twice has the later value, but capabilities add up.  The
separator is no value: where it is attached to an option, the option is used
without one.
-/

namespace ContractAdmission
namespace Cli

/-- What the options of a command line ask for. -/
structure Options where
  capabilities : Option (List (Option String)) := none
  hostVersion : Option String := none
  policyName : Option String := none
  config : Option String := none
  json : Bool := false
  verbose : Bool := false
  deriving DecidableEq, Repr

/-- A command line that can be carried out. -/
structure Arguments where
  path : String
  options : Options
  deriving DecidableEq, Repr

/-- Why a command line is not carried out. -/
inductive Stop where
  | help
  | usage (error : UsageError)
  deriving DecidableEq, Repr

/-- An option and its value, if it has one. -/
structure Use where
  opt : Opt
  value : Option String := none
  deriving DecidableEq, Repr

/-- Whether an option can have a value. -/
def Opt.allows (opt : Opt) (value : String) : Bool :=
  match opt.choices? with
  | none => true
  | some choices => value ∈ choices

/-- A use of an option with a text as its value.  The separator is no value. -/
def Use.ofText (opt : Opt) (text : String) : Use :=
  ⟨opt, if text = separatorText then none else some text⟩

namespace Options

/-- The options after one more use. -/
def set (options : Options) (use : Use) : Except Stop Options :=
  match use.opt with
  | .help => .error .help
  | .capabilities =>
      .ok { options with capabilities := some (options.capabilities.getD [] ++ [use.value]) }
  | .hostVersion => .ok { options with hostVersion := use.value }
  | .policy => .ok { options with policyName := use.value }
  | .config => .ok { options with config := use.value }
  | .json => .ok { options with json := true }
  | .verbose => .ok { options with verbose := true }

/-- The options after one more use, if its value is allowed. -/
def take (options : Options) (use : Use) : Except Stop Options :=
  match use.value with
  | none => options.set use
  | some value =>
      if use.opt.allows value then options.set use
      else .error (.usage (.notChoice use.opt value))

/-- The options after several uses, one after the other. -/
def takeAll (options : Options) (uses : List Use) : Except Stop Options :=
  uses.foldlM take options

end Options

/-- What a word with an option comes to. -/
structure Expansion where
  uses : List Use := []
  /-- The option whose value is the next word. -/
  pending : Option Opt := none
  deriving DecidableEq, Repr

namespace Expansion

/-- An option with nothing attached. -/
def bare (opt : Opt) : Expansion :=
  if opt.takesValue then { pending := some opt } else { uses := [{ opt }] }

/-- An option with a value attached. -/
def attached (opt : Opt) (value : List Char) : Except UsageError Expansion :=
  if opt.takesValue then .ok { uses := [.ofText opt (String.ofList value)] }
  else .error (.unwantedValue opt (String.ofList value))

/-- An expansion with one more use in front. -/
def withFlag (opt : Opt) (expansion : Expansion) : Expansion :=
  { expansion with uses := { opt } :: expansion.uses }

/-- An expansion with one more use at the end. -/
def withValue (opt : Opt) (value : String) (expansion : Expansion) : Expansion :=
  { expansion with uses := expansion.uses ++ [⟨opt, some value⟩] }

/-- An option with letters attached: its value if it takes one, or else further
options, of which the last can have a value. -/
def letters (opt : Opt) : List Char → Except UsageError Expansion
  | [] => .ok (bare opt)
  | letter :: rest =>
      if opt.takesValue then attached opt (letter :: rest)
      else
        match Opt.ofLetter? letter with
        | none => .error (.unwantedValue opt (String.ofList (letter :: rest)))
        | some next => (letters next rest).map (withFlag opt)

/-- What an option with what is attached to it comes to. -/
def ofWord (opt : Opt) : Attached → Except UsageError Expansion
  | .nothing => .ok (bare opt)
  | .letters text => letters opt text
  | .value text => attached opt text

end Expansion

/-- What is known after some of the words. -/
structure Draft where
  path : Option String := none
  options : Options := {}
  unrecognized : List String := []
  deriving DecidableEq, Repr

namespace Draft

/-- Set words aside that nothing takes. -/
def reject (draft : Draft) (words : List String) : Draft :=
  { draft with unrecognized := draft.unrecognized ++ words }

/-- Take what an expansion says but for the option whose value is still to come. -/
def take (draft : Draft) (expansion : Expansion) : Except Stop Draft :=
  (draft.options.takeAll expansion.uses).map fun options => { draft with options := options }

/-- Read the words.  The separator goes with the path that it stands next to. -/
def read (draft : Draft) : List (String × Word) → Except Stop Draft
  | [] => .ok draft
  | (word, kind) :: rest =>
      match kind with
      | .argument =>
          match draft.path, rest with
          | none, (_, .separator) :: later => read { draft with path := some word } later
          | none, rest => read { draft with path := some word } rest
          | some _, rest => read (draft.reject [word]) rest
      | .separator =>
          match draft.path, rest with
          | none, (next, .argument) :: later => read { draft with path := some next } later
          | _, rest => read (draft.reject [word]) rest
      | .unknown => read (draft.reject [word]) rest
      | .option opt attached =>
          match Expansion.ofWord opt attached with
          | .error error => .error (.usage error)
          | .ok expansion =>
              match expansion.pending, rest with
              | none, rest =>
                  match draft.take expansion with
                  | .error stop => .error stop
                  | .ok next => read next rest
              | some last, (value, .argument) :: later =>
                  match draft.take (expansion.withValue last value) with
                  | .error stop => .error stop
                  | .ok next => read next later
              | some last, _ => .error (.usage (.noValue last))

/-- What is known after all words, if it is enough. -/
def finish (draft : Draft) : Except Stop Arguments :=
  match draft.path, draft.unrecognized with
  | none, _ => .error (.usage .noPath)
  | some path, [] => .ok ⟨path, draft.options⟩
  | some _, words => .error (.usage (.unrecognized words))

end Draft

/-- What the words of a command line ask for. -/
def Arguments.parse (words : List String) : Except Stop Arguments :=
  match Word.classifyAll words with
  | .error error => .error (.usage error)
  | .ok classified =>
      match ({} : Draft).read classified with
      | .error stop => .error stop
      | .ok draft => draft.finish

end Cli
end ContractAdmission
