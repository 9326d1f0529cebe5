import ContractAdmission.Yaml.Timestamp

/-!
# Tags

A tag says what a node is.  A plain scalar without a tag has the tag that its
text has the form of; `Tag.ofPlain` decides it.
-/

namespace ContractAdmission
namespace Yaml

/-- What a node is. -/
inductive Tag where
  | null
  | bool
  | int
  | float
  | binary
  | timestamp
  | str
  | seq
  | map
  | set
  | omap
  | pairs
  /-- The key under which other mappings are merged into a mapping. -/
  | merge
  /-- The key that has the value a mapping stands for. -/
  | default
  /-- A tag without a meaning. -/
  | unknown
  deriving DecidableEq, Repr

namespace Tag

/-- The beginning of the names of all tags with a meaning. -/
def namePrefix : String := "tag:yaml.org,2002:"

/-- The tags with a meaning and the ends of their names. -/
def named : List (String × Tag) :=
  [("null", .null), ("bool", .bool), ("int", .int), ("float", .float),
    ("binary", .binary), ("timestamp", .timestamp), ("str", .str), ("seq", .seq),
    ("map", .map), ("set", .set), ("omap", .omap), ("pairs", .pairs),
    ("merge", .merge), ("value", .default)]

/-- The tag of a name. -/
def ofName (name : String) : Tag :=
  match named.find? fun entry => namePrefix ++ entry.1 = name with
  | some (_, tag) => tag
  | none => .unknown

/-- The words for truth values. -/
def boolWords : List String :=
  ["yes", "Yes", "YES", "no", "No", "NO", "true", "True", "TRUE", "false", "False",
    "FALSE", "on", "On", "ON", "off", "Off", "OFF"]

/-- The words for nothing. -/
def nullWords : List String := ["~", "null", "Null", "NULL", ""]

/-- What follows an optional sign. -/
def afterSign : List Char → List Char
  | c :: rest => if c = '+' ∨ c = '-' then rest else c :: rest
  | [] => []

/-- Whether a character is a decimal digit or an underscore. -/
def isDigitOrLow (c : Char) : Bool :=
  c.isDigit || c == '_'

/-- Whether a text is an exponent, or empty. -/
def isExponent : List Char → Bool
  | [] => true
  | mark :: sign :: digit :: rest =>
      (mark == 'e' || mark == 'E') && (sign == '+' || sign == '-') && digit.isDigit &&
        rest.all Char.isDigit
  | _ => false

/-- What follows groups of a colon and one or two digits, of which there has to
be at least one.  The first of two digits is at most five. -/
def afterSixties : Nat → List Char → Option (List Char)
  | 0, _ => none
  | bound + 1, ':' :: first :: rest =>
      if !first.isDigit then none
      else
        let later := match rest with
          | second :: later => if first.toNat ≤ 0x35 && second.isDigit then later else rest
          | [] => []
        match later with
        | ':' :: _ => afterSixties bound later
        | _ => some later
  | _, _ => none

/-- Whether a text has the form of a number with a point. -/
def isFloat (text : List Char) : Bool :=
  let unsigned := afterSign text
  let whole := unsigned.dropWhile isDigitOrLow
  let begins := match unsigned with
    | c :: _ => c.isDigit
    | [] => false
  let decimal := begins &&
    match whole with
    | '.' :: rest => isExponent (rest.dropWhile isDigitOrLow)
    | _ => false
  let fraction := match text with
    | '.' :: c :: rest => c.isDigit && isExponent (rest.dropWhile isDigitOrLow)
    | _ => false
  let sixties := begins &&
    match afterSixties whole.length whole with
    | some ('.' :: rest) => rest.all isDigitOrLow
    | _ => false
  let infinite := [".inf", ".Inf", ".INF"].contains (String.ofList unsigned)
  let undefined := [".nan", ".NaN", ".NAN"].contains (String.ofList text)
  decimal || fraction || sixties || infinite || undefined

/-- Whether a list is not empty and all its members have a property. -/
def someAll (p : Char → Bool) (text : List Char) : Bool :=
  !text.isEmpty && text.all p

/-- Whether a character is a hexadecimal digit. -/
def isHexDigit (c : Char) : Bool :=
  c.isDigit || ('a' ≤ c && c ≤ 'f') || ('A' ≤ c && c ≤ 'F')

/-- Whether a text has the form of a whole number. -/
def isInt (text : List Char) : Bool :=
  match afterSign text with
  | [] => false
  | ['0'] => true
  | '0' :: 'b' :: rest => someAll (fun c => c == '0' || c == '1' || c == '_') rest
  | '0' :: 'x' :: rest => someAll (fun c => isHexDigit c || c == '_') rest
  | '0' :: rest => rest.all fun c => ('0' ≤ c && c ≤ '7') || c == '_'
  | c :: rest =>
      if !c.isDigit then false
      else
        let later := rest.dropWhile isDigitOrLow
        later.isEmpty || afterSixties later.length later = some []

/-- Whether a text has the form of a timestamp.  A date alone has two digits for
month and day. -/
def isTimestamp (text : List Char) : Bool :=
  match Timestamp.ofText? text with
  | none => false
  | some stamp => stamp.padded || stamp.time.isSome

/-- A text without a line feed at its end. -/
def withoutLastBreak (text : List Char) : List Char :=
  if text.getLast? = some '\n' then text.dropLast else text

/-- The tag of a text that is not empty and does not begin with a line feed. -/
def ofWord (text : List Char) : Tag :=
  let word := String.ofList text
  if boolWords.contains word then .bool
  else if isFloat text then .float
  else if isInt text then .int
  else if word = "<<" then .merge
  else if nullWords.contains word then .null
  else if isTimestamp text then .timestamp
  else if word = "=" then .default
  else if word = "!" ∨ word = "&" ∨ word = "*" then .unknown
  else .str

/-- The tag that a text has the form of.  A line feed at its end does not
count. -/
def ofPlain (text : String) : Tag :=
  match text.toList with
  | [] => .null
  | '\n' :: _ => .str
  | chars => ofWord (withoutLastBreak chars)

end Tag
end Yaml
end ContractAdmission
