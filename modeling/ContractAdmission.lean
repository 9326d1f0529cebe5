import ContractAdmission.Admission
import ContractAdmission.CapabilitySet
import ContractAdmission.Check
import ContractAdmission.Cli.Arguments
import ContractAdmission.Cli.Option
import ContractAdmission.Cli.Run
import ContractAdmission.Cli.Usage
import ContractAdmission.Cli.Word
import ContractAdmission.Config
import ContractAdmission.ConfigFile
import ContractAdmission.Contract
import ContractAdmission.Defect
import ContractAdmission.Disk
import ContractAdmission.Host
import ContractAdmission.Interface
import ContractAdmission.Json
import ContractAdmission.Log
import ContractAdmission.Main
import ContractAdmission.Path
import ContractAdmission.Policy
import ContractAdmission.Proofs.AbstractInterface
import ContractAdmission.Proofs.Admissible
import ContractAdmission.Proofs.BinaryInterface
import ContractAdmission.Proofs.Checks
import ContractAdmission.Proofs.CommandLine
import ContractAdmission.Proofs.ConfigFailures
import ContractAdmission.Proofs.ContractFailures
import ContractAdmission.Proofs.FirstDefect
import ContractAdmission.Proofs.Gathering
import ContractAdmission.Proofs.KnownNames
import ContractAdmission.Proofs.PathLimits
import ContractAdmission.Proofs.Precedence
import ContractAdmission.Proofs.Sources
import ContractAdmission.Proofs.Truncation
import ContractAdmission.Proofs.Wasm.Assembly
import ContractAdmission.Proofs.Wasm.Blueprint
import ContractAdmission.Proofs.Wasm.Bodies
import ContractAdmission.Proofs.Wasm.Boundaries
import ContractAdmission.Proofs.Wasm.Entities
import ContractAdmission.Proofs.Wasm.Grammar
import ContractAdmission.Proofs.Wasm.Growth
import ContractAdmission.Proofs.Wasm.Realization
import ContractAdmission.Proofs.Wasm.Sections
import ContractAdmission.Proofs.Wasm.Soundness
import ContractAdmission.Report
import ContractAdmission.Session
import ContractAdmission.Setting
import ContractAdmission.Text.Blank
import ContractAdmission.Text.Decimal
import ContractAdmission.Text.Digit
import ContractAdmission.Text.Literal
import ContractAdmission.Text.Printable
import ContractAdmission.Text.Utf8
import ContractAdmission.Verdict
import ContractAdmission.Wasm.Compile
import ContractAdmission.Wasm.ConstExpr
import ContractAdmission.Wasm.Decode
import ContractAdmission.Wasm.Frame
import ContractAdmission.Wasm.Instruction
import ContractAdmission.Wasm.Module
import ContractAdmission.Wasm.Operation
import ContractAdmission.Wasm.Reader
import ContractAdmission.Wasm.Section
import ContractAdmission.Wasm.TypeTable
import ContractAdmission.Wasm.Types
import ContractAdmission.Wasm.Typing
import ContractAdmission.Wasm.ValueType
import ContractAdmission.Yaml.Construction
import ContractAdmission.Yaml.Cursor
import ContractAdmission.Yaml.Double
import ContractAdmission.Yaml.Graph
import ContractAdmission.Yaml.Meaning
import ContractAdmission.Yaml.Node
import ContractAdmission.Yaml.Numeral
import ContractAdmission.Yaml.Scalar
import ContractAdmission.Yaml.ScalarValue
import ContractAdmission.Yaml.Source
import ContractAdmission.Yaml.Tag
import ContractAdmission.Yaml.Timestamp
import ContractAdmission.Yaml.Token
import ContractAdmission.Yaml.TokenStream
import ContractAdmission.Proofs.Additions
import ContractAdmission.Proofs.Repair
import ContractAdmission.Proofs.Answers
import ContractAdmission.Proofs.AnswerLines
import ContractAdmission.Proofs.AcceptedBinaries
import ContractAdmission.Proofs.ListedSections
import ContractAdmission.Proofs.Defaults
import ContractAdmission.Proofs.CapabilitySources
import ContractAdmission.Proofs.GrantableContracts
import ContractAdmission.Proofs.Obstacles
import ContractAdmission.Proofs.Verbosity
import ContractAdmission.Proofs.NamedRepairs
import ContractAdmission.Proofs.ReportText
import ContractAdmission.Proofs.CapabilityTexts
import ContractAdmission.Proofs.PrintedConfig
import ContractAdmission.Proofs.EngineFeatures
import ContractAdmission.Proofs.OptionOrder
import ContractAdmission.Proofs.PolicyClashes
