import ContractAdmission.Text.Blank
import ContractAdmission.Text.Digit
import ContractAdmission.Yaml.Double
import ContractAdmission.Yaml.Tag
import ContractAdmission.Yaml.Token

/-!
# Numerals

The whole and the broken numbers that the text of a scalar stands for.  A number
can be written in several bases, in groups of sixties, with underscores between
its digits, and with the decimal digits of any script.

A whole number is exact; a broken one is kept in double precision.
-/

namespace ContractAdmission
namespace Yaml

/-- A text with every decimal digit as one of ASCII. -/
def plainDigits (text : List Char) : List Char :=
  text.map fun c =>
    match Text.digitValue? c with
    | some value => Char.ofNat (0x30 + value)
    | none => c

/-- A sign, if there is one, and the rest. -/
def splitSign : List Char → Bool × List Char
  | '-' :: rest => (true, rest)
  | '+' :: rest => (false, rest)
  | text => (false, text)

/-- The value of a digit in bases up to sixteen. -/
def baseDigit? (base : Nat) (c : Char) : Option Nat :=
  match Lexer.hexValue? c with
  | some value => if value < base then some value else none
  | none => none

/-- The number that digits stand for in a base.  There has to be one. -/
def baseNumber? (base : Nat) (digits : List Char) : Option Nat :=
  if digits = [] then none
  else digits.foldlM (fun n c => (baseDigit? base c).map (base * n + ·)) 0

/-- The letter that may announce a base after a zero. -/
def baseMark? (base : Nat) : Option (Char × Char) :=
  match base with
  | 2 => some ('b', 'B')
  | 8 => some ('o', 'O')
  | 16 => some ('x', 'X')
  | _ => none

/-- What follows the announcement of a base, if there is one. -/
def afterBaseMark (base : Nat) (text : List Char) : List Char :=
  match text, baseMark? base with
  | '0' :: mark :: rest, some (lower, upper) =>
      if mark = lower ∨ mark = upper then rest else text
  | _, _ => text

/-- The whole number that a text stands for in a base.  Blanks around it do not
count.  A number in base ten has a limited number of digits. -/
def wholeNumber? (base : Nat) (text : List Char) : Option Int :=
  let (negative, unsigned) := splitSign (plainDigits (Text.trim Text.isWhiteSpace text))
  let digits := afterBaseMark base unsigned
  if base = 10 ∧ Lexer.maxDigits < digits.length then none
  else
    (baseNumber? base digits).map fun n => if negative then -(n : Int) else (n : Int)

/-- The number that groups of sixties stand for, the last group first. -/
def sixties : List Int → Int
  | [] => 0
  | group :: rest => group + 60 * sixties rest

/-- The whole number that the text of a scalar stands for. -/
def scalarInt (text : String) : Except Fault Int := do
  let (negative, unsigned) := splitSign (text.toList.filter (· ≠ '_'))
  let signed (n : Int) : Int := if negative then -n else n
  let found ← match unsigned with
    | [] => throw .emptyNumber
    | ['0'] => pure (some 0)
    | '0' :: 'b' :: rest => pure (wholeNumber? 2 rest)
    | '0' :: 'x' :: rest => pure (wholeNumber? 16 rest)
    | '0' :: _ => pure (wholeNumber? 8 unsigned)
    | _ =>
        if unsigned.contains ':' then
          pure (((unsigned.splitOn ':').mapM (wholeNumber? 10)).map fun groups =>
            sixties groups.reverse)
        else pure (wholeNumber? 10 unsigned)
  match found with
  | some n => return signed n
  | none => throw .impossibleValue

/-- The exponent of a number, if it has one, at the end of its text. -/
def exponent? : List Char → Option Int
  | [] => some 0
  | mark :: rest =>
      if mark ≠ 'e' then none
      else
        let (negative, digits) := splitSign rest
        (baseNumber? 10 digits).map fun n => if negative then -(n : Int) else (n : Int)

/-- The broken number that a text in small letters stands for.  Blanks around it
do not count. -/
def brokenNumber? (text : List Char) : Option Double :=
  let (negative, unsigned) := splitSign (plainDigits (Text.trim Text.isWhiteSpace text))
  let word := String.ofList unsigned
  if word = "inf" ∨ word = "infinity" then some (.infinite negative)
  else if word = "nan" then some .undefined
  else
    let whole := unsigned.takeWhile Char.isDigit
    let later := unsigned.drop whole.length
    let afterPoint := match later with
      | '.' :: rest => rest
      | _ => []
    let broken := afterPoint.takeWhile Char.isDigit
    let ending := match later with
      | '.' :: _ => afterPoint.drop broken.length
      | _ => later
    if whole ++ broken = [] then none
    else do
      let mantissa ← baseNumber? 10 (whole ++ broken)
      let exponent ← exponent? ending
      return .ofDecimal negative mantissa (exponent - broken.length)

/-- The number of groups of sixties that are one too many. -/
def tooManyGroups : Nat := 175

/-- The broken number that groups of sixties stand for, the last group first, of
which each counts as often as `unit` says, together with a sum. -/
def brokenSixties (sum : Double) (unit : Nat) : List Double → Double
  | [] => sum
  | group :: rest => brokenSixties (sum.add (group.scale unit)) (60 * unit) rest

/-- A broken number as it is written: its sign, and the rest in small letters. -/
def signedDigits (text : String) : Bool × List Char :=
  splitSign ((text.toList.filter (· ≠ '_')).map Char.toLower)

/-- The word for what is no number. -/
def isUndefinedWord (text : String) : Bool :=
  (signedDigits text).2 = ".nan".toList

/-- The broken number that the text of a scalar stands for. -/
def scalarFloat (text : String) : Except Fault Double := do
  let (negative, unsigned) := signedDigits text
  let signed (found : Double) : Double := if negative then found.negate else found
  if text.toList.all (· == '_') then throw .emptyNumber
  else if unsigned = ".inf".toList then return signed (.infinite false)
  else if isUndefinedWord text then return .undefined
  else if unsigned.contains ':' then
    match (unsigned.splitOn ':').mapM brokenNumber? with
    | none => throw .impossibleValue
    | some groups =>
        if tooManyGroups ≤ groups.length then throw .overflow
        else return signed (brokenSixties (.finite 0) 1 groups.reverse)
  else
    match brokenNumber? unsigned with
    | none => throw .impossibleValue
    | some found => return signed found

end Yaml
end ContractAdmission
