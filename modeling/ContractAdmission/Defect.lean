import ContractAdmission.Verdict

/-!
# Defects

What the five stages can find wrong with an interface, each with the data that
its report shows.
-/

namespace ContractAdmission

/-- A reason to refuse a contract. -/
inductive Defect where
  | noMemory
  | severalMemories
  | noMarker
  | severalMarkers
  | unknownMarker (marker version : String) (supported : List String)
  | missingExports (missing required : List String)
  | missingImports (missing required : List String)
  | missingCapabilities (missing : List String)
  deriving DecidableEq, Repr

namespace Defect

/-- Names in double quotes, separated by commas.  The quotes are not escaped. -/
def quoteNames (names : List String) : String :=
  ", ".intercalate (names.map fun name => "\"" ++ name ++ "\"")

/-- The stage that finds a defect. -/
def stage : Defect → Stage
  | .noMemory | .severalMemories => .memories
  | .noMarker | .severalMarkers | .unknownMarker .. => .interfaceVersion
  | .missingExports .. => .exports
  | .missingImports .. => .imports
  | .missingCapabilities .. => .capabilities

/-- The text that reports a defect. -/
def message : Defect → String
  | .noMemory => "missing memory section"
  | .severalMemories => "must contain exactly one memory"
  | .noMarker => "missing interface_version_* marker export"
  | .severalMarkers => "more than one interface_version_* marker export"
  | .unknownMarker marker version supported =>
      "unknown interface_version_* marker: \"" ++ marker ++
        "\". Versions supported by VM " ++ version ++ ": " ++
        quoteNames supported ++ "."
  | .missingExports missing required =>
      "missing required export: " ++ quoteNames missing ++
        ". Exports required by VM: " ++ quoteNames required ++ "."
  | .missingImports missing required =>
      "missing required import: " ++ quoteNames missing ++
        ". Imports required by VM: " ++ quoteNames required ++ "."
  | .missingCapabilities missing =>
      "missing capability: " ++ ", ".intercalate missing

end Defect

/-- The verdict on an interface in which a stage found a defect, or none. -/
def Verdict.ofDefect? : Option Defect → Verdict
  | none => .valid
  | some defect => .invalid defect.stage defect.message

end ContractAdmission
