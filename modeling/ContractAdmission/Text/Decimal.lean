/-!
# Decimal numerals

Natural numbers in decimal digits, without leading zeros.
-/

namespace ContractAdmission
namespace Text

/-- A number in decimal digits. -/
def decimal (n : Nat) : String :=
  String.ofList (Nat.toDigits 10 n)

end Text
end ContractAdmission
