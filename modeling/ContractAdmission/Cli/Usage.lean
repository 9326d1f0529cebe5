import ContractAdmission.Cli.Word
import ContractAdmission.Text.Literal

/-!
# Usage of the command line

The texts that explain the command line and what is wrong with one.  Lines are
filled word by word up to a fixed width.
-/

namespace ContractAdmission
namespace Cli

/-- The width of a line. -/
def lineWidth : Nat := 78

/-- The column at which explanations begin. -/
def explanationColumn : Nat := 24

/-- A number of spaces. -/
def spaces (count : Nat) : String := String.ofList (List.replicate count ' ')

/-- Put words into lines, the first of which is begun already. -/
def fillFrom (width : Nat) (line : String) : List String → List String
  | [] => [line]
  | word :: rest =>
      if line.length + 1 + word.length ≤ width then fillFrom width (line ++ " " ++ word) rest
      else line :: fillFrom width word rest

/-- Put words into as few lines as hold them. -/
def fill (width : Nat) : List String → List String
  | [] => []
  | word :: rest => fillFrom width word rest

namespace Opt

/-- What stands for the value of an option. -/
def placeholder? (opt : Opt) : Option String :=
  match opt, opt.choices? with
  | _, some choices => some ("\x7b" ++ ",".intercalate choices ++ "\x7d")
  | .capabilities, none => some "CAPABILITIES"
  | .config, none => some "CONFIG"
  | _, none => none

/-- A name of an option with what stands for its value. -/
def shown (opt : Opt) (name : String) : String :=
  match opt.placeholder? with
  | none => name
  | some placeholder => name ++ " " ++ placeholder

/-- An option in the synopsis. -/
def synopsis (opt : Opt) : String :=
  "[" ++ opt.shown (opt.names.headD "") ++ "]"

/-- All names of an option. -/
def heading (opt : Opt) : String :=
  ", ".intercalate (opt.names.map opt.shown)

/-- The words that explain an option. -/
def explanation : Opt → List String
  | .help => ["show", "this", "help", "message", "and", "exit"]
  | .capabilities =>
      ["Comma", "separated", "list", "of", "capabilities", "the", "host", "provides.", "Can",
        "be", "repeated."]
  | .config => ["Path", "to", "a", "yaml", "config."]
  | .json => ["Print", "the", "verdict", "as", "JSON."]
  | .hostVersion | .policy | .verbose => []

end Opt

/-- The name of the argument that every command line needs. -/
def pathName : String := "path"

/-- The lines that show what a program can be called with. -/
def synopsisLines (program : String) : List String :=
  let lead := "usage: " ++ program ++ " "
  let indent := spaces lead.length
  match fill (lineWidth - lead.length) (Opt.all.map (·.synopsis)) with
  | [] => [lead ++ pathName]
  | first :: rest => (lead ++ first) :: (rest ++ [pathName]).map (indent ++ ·)

/-- A heading with its explanation beside it, or below it if the heading is too
long. -/
def entryLines (heading : String) (explanation : List String) : List String :=
  let lines := fill (lineWidth - explanationColumn) explanation
  let lead := "  " ++ heading
  let below := lines.map (spaces explanationColumn ++ ·)
  if lead.length + 2 ≤ explanationColumn then
    match lines, below with
    | first :: _, _ :: later =>
        (lead ++ spaces (explanationColumn - lead.length) ++ first) :: later
    | _, _ => [lead]
  else lead :: below

/-- Lines, each with its end. -/
def textOfLines (lines : List String) : String :=
  String.join (lines.map (· ++ "\n"))

/-- The text that shows what a program can be called with. -/
def synopsisText (program : String) : String :=
  textOfLines (synopsisLines program)

/-- The text that explains a program. -/
def helpText (program : String) : String :=
  textOfLines <|
    synopsisLines program ++
      ["", "Verify that a CosmWasm contract is valid", "", "positional arguments:"] ++
      entryLines pathName ["Path", "to", "the", "contract"] ++
      ["", "options:"] ++
      Opt.all.flatMap fun opt => entryLines opt.heading opt.explanation

/-- The text that reports what is wrong with a command line. -/
def UsageError.message : UsageError → String
  | .ambiguous word names =>
      "ambiguous option: " ++ word ++ " could match " ++ ", ".intercalate names
  | .noValue opt => "argument " ++ opt.label ++ ": expected one argument"
  | .unwantedValue opt value =>
      "argument " ++ opt.label ++ ": ignored explicit argument " ++ Text.literal value
  | .notChoice opt value =>
      "argument " ++ opt.label ++ ": invalid choice: " ++ Text.literal value ++
        " (choose from " ++ ", ".intercalate ((opt.choices?.getD []).map Text.literal) ++ ")"
  | .noPath => "the following arguments are required: " ++ pathName
  | .unrecognized words => "unrecognized arguments: " ++ " ".intercalate words

/-- The text that answers a command line that cannot be carried out. -/
def UsageError.report (program : String) (error : UsageError) : String :=
  synopsisText program ++ program ++ ": error: " ++ error.message ++ "\n"

end Cli
end ContractAdmission
