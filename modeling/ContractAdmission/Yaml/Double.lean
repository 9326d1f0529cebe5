/-!
# Numbers in double precision

A finite number in double precision is a whole multiple of the smallest positive
one, which is two to the power of minus 1074.  Of such a multiple the leading
fifty-three binary digits are kept, rounded to the nearest, a tie to the even
neighbour; what becomes too large is infinite.  All that is done with such numbers
is done exactly and then rounded once.

The two zeros are not told apart.
-/

namespace ContractAdmission
namespace Yaml

/-- A number in double precision.  A finite one is a number of the smallest
units. -/
inductive Double where
  | finite (units : Int)
  | infinite (negative : Bool)
  | undefined
  deriving DecidableEq, Repr

/-- The whole number nearest to a quotient, of two such the even one. -/
def roundQuotient (num den : Nat) : Nat :=
  if 2 * (num % den) < den ∨ (2 * (num % den) = den ∧ num / den % 2 = 0) then num / den
  else num / den + 1

/-- Rounding moves a quotient by one half at most. -/
theorem roundQuotient_near (num : Nat) {den : Nat} (h : 0 < den) :
    2 * (den * roundQuotient num den) ≤ 2 * num + den ∧
      2 * num ≤ 2 * (den * roundQuotient num den) + den := by
  have hsum := Nat.div_add_mod num den
  have hlt := Nat.mod_lt num h
  unfold roundQuotient
  split
  · omega
  · rw [Nat.mul_add, Nat.mul_one]
    omega

namespace Double

/-- The number of binary digits that are kept. -/
def precision : Nat := 53

/-- The number of units in one. -/
def one : Nat := Nat.pow 2 1074

/-- The number of units that is infinite. -/
def limit : Nat := Nat.pow 2 2098

/-- A quotient to as many binary digits as are kept. -/
def keptDigits (num den : Nat) : Nat :=
  let step := Nat.pow 2 (Nat.log2 (num / den) + 1 - precision)
  roundQuotient num (den * step) * step

/-- The number nearest to a quotient of units. -/
def ofUnits (negative : Bool) (num den : Nat) : Double :=
  let units := keptDigits num den
  if limit ≤ units then .infinite negative
  else .finite (if negative then -(units : Int) else (units : Int))

/-- The number nearest to `mantissa * 10 ^ exponent`.  Numbers whose first decimal
place lies far from the point are infinite or zero without further ado. -/
def ofDecimal (negative : Bool) (mantissa : Nat) (exponent : Int) : Double :=
  let places := exponent + (Nat.toDigits 10 mantissa).length
  if mantissa = 0 ∨ places < -330 then .finite 0
  else if 310 < places then .infinite negative
  else if 0 ≤ exponent then
    ofUnits negative (mantissa * Nat.pow 10 exponent.natAbs * one) 1
  else ofUnits negative (mantissa * one) (Nat.pow 10 exponent.natAbs)

/-- The sum of two numbers. -/
def add : Double → Double → Double
  | .finite a, .finite b => ofUnits (a + b < 0) (a + b).natAbs 1
  | .infinite first, .infinite second =>
      if first = second then .infinite first else .undefined
  | .undefined, _ | _, .undefined => .undefined
  | .infinite negative, .finite _ | .finite _, .infinite negative => .infinite negative

/-- The product of a number with a positive whole number, which is rounded
first. -/
def scale (factor : Nat) : Double → Double
  | .finite units => ofUnits (units < 0) (units.natAbs * keptDigits factor 1) 1
  | other => other

/-- A number with the other sign. -/
def negate : Double → Double
  | .finite units => .finite (-units)
  | .infinite negative => .infinite (!negative)
  | .undefined => .undefined

end Double
end Yaml
end ContractAdmission
