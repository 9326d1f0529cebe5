import ContractAdmission.Json
import ContractAdmission.Verdict

/-!
# The report of a verdict

A verdict as a JSON object with the four members `valid`, `kind`, `category`
and `message`, in this order.
-/

namespace ContractAdmission
namespace Verdict

/-- The message of the report on a valid contract. -/
def validMessage : String := "Wasm contract is valid"

/-- A verdict as a JSON value. -/
def toJson : Verdict → Json
  | .valid =>
      .object [("valid", .bool true), ("kind", .null), ("category", .null),
        ("message", .string validMessage)]
  | .invalid stage reason =>
      .object [("valid", .bool false), ("kind", .string stage.kind),
        ("category", .string stage.category.label), ("message", .string reason)]

/-- The report of a verdict, on one line. -/
def report (verdict : Verdict) : String :=
  verdict.toJson.render

end Verdict
end ContractAdmission
