import ContractAdmission.Cli.Option
import ContractAdmission.Text.Digit

/-!
# Words of the command line

What a word of the command line is before its place among the others is known: an
argument, the separator after which all words are arguments, or an option with
or without a value of its own.

A long name can be cut short as long as it stays clear which option is meant.
Letters can follow a dash together, and the first of them can be set apart by an
equals sign.  A negative number is an argument, and so is
a word with a space that is no option.
-/

namespace ContractAdmission
namespace Cli

/-- Why a command line cannot be carried out. -/
inductive UsageError where
  | ambiguous (word : String) (names : List String)
  | noValue (opt : Opt)
  | unwantedValue (opt : Opt) (value : String)
  | notChoice (opt : Opt) (value : String)
  | noPath
  | unrecognized (words : List String)
  deriving DecidableEq, Repr

/-- The word after which all words are arguments. -/
def separatorText : String := "--"

/-- What is written into the same word as an option. -/
inductive Attached where
  | nothing
  /-- Something after the letter of an option, or after that and an equals sign. -/
  | letters (text : List Char)
  /-- What follows a long name and an equals sign, or nothing after an equals
  sign. -/
  | value (text : List Char)
  deriving DecidableEq, Repr

/-- What a word is. -/
inductive Word where
  | argument
  | separator
  | option (opt : Opt) (attached : Attached)
  | unknown
  deriving DecidableEq, Repr

namespace Word

/-- The parts of a word before and after its first equals sign, if it has one. -/
def splitEquals (text : List Char) : List Char × Option (List Char) :=
  match text.dropWhile (· ≠ '=') with
  | [] => (text, none)
  | _ :: value => (text.takeWhile (· ≠ '='), some value)

/-- Whether a name begins with two dashes. -/
def isLong (name : List Char) : Bool :=
  ['-', '-'].isPrefixOf name

/-- What follows a name and an equals sign, if there is one. -/
def attachedTo (name : List Char) : Option (List Char) → Attached
  | none => .nothing
  | some text => if isLong name || text.isEmpty then .value text else .letters text

/-- The names that a word can mean, with the options that go by them, and what is
attached to the name.  A long name can be cut short. -/
def candidates (text : List Char) : List (String × Opt) × Attached :=
  if isLong text then
    let (name, value) := splitEquals text
    (Opt.named.filter fun entry => name.isPrefixOf entry.1.toList, attachedTo name value)
  else
    (Opt.named.filter fun entry => entry.1.toList = text.take 2, .letters (text.drop 2))

/-- Whether a text is a negative number: a dash and digits of any script, perhaps
with a point before some of them.  A line feed at its end does not count. -/
def isNegativeNumber (text : List Char) : Bool :=
  let digits := match text.getLast? with
    | some '\n' => text.dropLast
    | _ => text
  match digits with
  | '-' :: rest =>
      let whole := rest.dropWhile Text.isDecimalDigit
      let isWhole := !rest.isEmpty && whole.isEmpty
      let isBroken := match whole with
        | '.' :: places => !places.isEmpty && places.all Text.isDecimalDigit
        | _ => false
      isWhole || isBroken
  | _ => false

/-- What a word is that no option is meant by. -/
def other (text : List Char) : Word :=
  if isNegativeNumber text || text.contains ' ' then .argument else .unknown

/-- What a word is that begins with a dash and has more. -/
def ofDashed (word : String) : Except UsageError Word :=
  let text := word.toList
  let (name, value) := splitEquals text
  match Opt.ofName? word, value.bind fun _ => Opt.ofName? (String.ofList name) with
  | some opt, _ => .ok (.option opt .nothing)
  | none, some opt => .ok (.option opt (attachedTo name value))
  | none, none =>
      match candidates text with
      | ([], _) => .ok (other text)
      | ([(_, opt)], attached) => .ok (.option opt attached)
      | (several, _) => .error (.ambiguous word (several.map (·.1)))

/-- What a word is before the separator. -/
def classify (word : String) : Except UsageError Word :=
  match word.toList with
  | '-' :: _ :: _ => if word = separatorText then .ok .separator else ofDashed word
  | _ => .ok .argument

/-- A word that does not begin with a dash is an argument. -/
theorem classify_of_head?_ne {word : String} (h : word.toList.head? ≠ some '-') :
    classify word = .ok .argument := by
  unfold classify
  split
  · rename_i heq
    simp [heq] at h
  · rfl

/-- The words of a command line and what they are.  After the separator all are
arguments. -/
def classifyAll : List String → Except UsageError (List (String × Word))
  | [] => .ok []
  | word :: rest =>
      match classify word with
      | .error error => .error error
      | .ok .separator =>
          .ok ((word, .separator) :: rest.map fun later => (later, .argument))
      | .ok kind => (classifyAll rest).map ((word, kind) :: ·)

end Word
end Cli
end ContractAdmission
