import ContractAdmission.Yaml.Numeral
import ContractAdmission.Yaml.Node

/-!
# The values of scalars

What a scalar of a tag and a text is.  Of a value that is no text as much is kept as
tells it apart from others: truth values and numbers are equal to the numbers that they
count as, whole or broken, and moments with an offset are equal that are the same in
universal time.
-/

namespace ContractAdmission
namespace Yaml

/-- The value of a scalar. -/
inductive ScalarValue where
  | text (value : CodeText)
  | null
  /-- A truth value or a finite number, in the smallest units of double precision. -/
  | number (units : Int)
  | infinite (negative : Bool)
  /-- What is no number is equal to itself only: what the word for it stands for, or what
  a node stands for. -/
  | undefined (owner : Option Nat)
  | bytes (value : Bytes)
  | date (day : Nat)
  | moment (microseconds : Int) (hasOffset : Bool)
  deriving DecidableEq, Repr

namespace ScalarValue

/-- Whether a value counts as nothing. -/
def isNothing : ScalarValue → Bool
  | .text value => value = .whole ""
  | .null => true
  | .number units => units = 0
  | .bytes value => value.isEmpty
  | .infinite _ | .undefined _ | .date _ | .moment _ _ => false

/-- A whole number. -/
def ofInt (n : Int) : ScalarValue := .number (n * Double.one)

/-- The words that stand for a truth value, in small letters. -/
def truthWords : List (String × Bool) :=
  [("yes", true), ("no", false), ("true", true), ("false", false), ("on", true),
    ("off", false)]

/-- The truth value of a word, in any mixture of letters. -/
def ofWord (text : String) : Except Fault ScalarValue :=
  match truthWords.lookup (String.ofList (text.toList.map Char.toLower)) with
  | some value => .ok (ofInt value.toNat)
  | none => .error .unknownWord

/-- The value of a broken number that a node has. -/
def ofFloat (id : Nat) (text : String) : Except Fault ScalarValue :=
  (scalarFloat text).map fun found =>
    match found with
    | .finite units => .number units
    | .infinite negative => .infinite negative
    | .undefined => .undefined (if isUndefinedWord text then none else some id)

/-- The six bits that a digit of binary text stands for. -/
def binaryDigit? (c : Char) : Option Nat :=
  if c.isUpper then some (c.toNat - 0x41)
  else if c.isLower then some (c.toNat - 0x61 + 26)
  else if c.isDigit then some (c.toNat - 0x30 + 52)
  else if c = '+' then some 62
  else if c = '/' then some 63
  else none

/-- Read binary text of which `place` digits of a group of four and `pads` padding
marks in a row were read.  These gave bytes, the last one first, and left some bits for
the next.  Characters that are no digits are skipped.  A group ends with its fourth digit
or with its padding; padding ends the text. -/
def binaryFrom (bytes : Bytes) (left place pads : Nat) : List Char → Option Bytes
  | [] => if place = 0 then some bytes.reverse else none
  | c :: rest =>
      if c = '=' then
        if 2 ≤ place then
          if 4 ≤ place + (pads + 1) then some bytes.reverse
          else binaryFrom bytes left place (pads + 1) rest
        else binaryFrom bytes left place pads rest
      else
        match binaryDigit? c, place with
        | none, _ => binaryFrom bytes left place pads rest
        | some digit, 0 => binaryFrom bytes digit 1 0 rest
        | some digit, 1 =>
            binaryFrom (UInt8.ofNat (4 * left + digit / 16) :: bytes) (digit % 16) 2 0 rest
        | some digit, 2 =>
            binaryFrom (UInt8.ofNat (16 * left + digit / 4) :: bytes) (digit % 4) 3 0 rest
        | some digit, _ => binaryFrom (UInt8.ofNat (64 * left + digit) :: bytes) 0 0 0 rest

/-- The value of binary text, which is ASCII. -/
def ofBinary (text : String) : Except Fault ScalarValue :=
  if text.toList.any fun c => 0x80 ≤ c.toNat then .error .construction
  else
    match binaryFrom [] 0 0 0 text.toList with
    | some found => .ok (.bytes found)
    | none => .error .construction

/-- The value of a date. -/
def ofDate (text : String) : Except Fault ScalarValue :=
  match Timestamp.ofText? (Tag.withoutLastBreak text.toList) with
  | none => .error .malformedDate
  | some stamp =>
      if stamp.isMoment then
        match stamp.time with
        | none => .ok (.date stamp.dayNumber)
        | some time =>
            .ok (.moment (Timestamp.microseconds stamp.dayNumber time) time.offset.isSome)
      else .error .impossibleValue

/-- The value of a text with the tag of a scalar, which a node has.  A text with half of a
pair in it is no word, number or date, and no bytes. -/
def ofTagged (id : Nat) (tag : Tag) (text : CodeText) : Except Fault ScalarValue :=
  match tag, text with
  | .str, text => .ok (.text text)
  | .null, _ => .ok .null
  | .bool, .whole text => ofWord text
  | .bool, .halved _ _ => .error .unknownWord
  | .int, .whole text => (scalarInt text).map ofInt
  | .float, .whole text => ofFloat id text
  | .int, .halved _ _ | .float, .halved _ _ => .error .impossibleValue
  | .binary, .whole text => ofBinary text
  | .timestamp, .whole text => ofDate text
  | .timestamp, .halved _ _ => .error .malformedDate
  | _, _ => .error .construction

end ScalarValue
end Yaml
end ContractAdmission
