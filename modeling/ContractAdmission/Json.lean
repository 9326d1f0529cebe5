import ContractAdmission.Text.Literal

/-!
# JSON text

The values that reports and configurations are printed as, in the compact form
and in the indented one.  Strings hold no raw control character: five of these
have a short escape and the others a numeric one, and the quote and the
backslash are escaped.  All other characters stand for themselves.
-/

namespace ContractAdmission

/-- A JSON value without numbers. -/
inductive Json where
  | null
  | bool (value : Bool)
  | string (value : String)
  | array (items : List Json)
  | object (members : List (String × Json))

namespace Json

/-- The spelling of a character inside a JSON string. -/
def escapeChar (c : Char) : List Char :=
  if c = '"' then ['\\', '"']
  else if c = '\\' then ['\\', '\\']
  else if c = '\x08' then ['\\', 'b']
  else if c = '\t' then ['\\', 't']
  else if c = '\n' then ['\\', 'n']
  else if c = '\x0c' then ['\\', 'f']
  else if c = '\r' then ['\\', 'r']
  else if c.toNat < 0x20 then '\\' :: 'u' :: Text.hexDigits 4 c.toNat
  else [c]

/-- A text as a JSON string. -/
def quote (s : String) : List Char :=
  '"' :: s.toList.flatMap escapeChar ++ ['"']

/-- The two words for truth values. -/
def boolWord (value : Bool) : List Char :=
  if value then "true".toList else "false".toList

mutual

/-- The text of a value without any space. -/
def compact : Json → List Char
  | .null => "null".toList
  | .bool value => boolWord value
  | .string value => quote value
  | .array items => '[' :: compactItems items ++ [']']
  | .object members => '{' :: compactMembers members ++ ['}']

/-- Items separated by commas. -/
def compactItems : List Json → List Char
  | [] => []
  | [item] => compact item
  | item :: rest => compact item ++ ',' :: compactItems rest

/-- Members separated by commas. -/
def compactMembers : List (String × Json) → List Char
  | [] => []
  | [(key, value)] => quote key ++ ':' :: compact value
  | (key, value) :: rest => quote key ++ ':' :: compact value ++ ',' :: compactMembers rest

end

/-- A line end and the blanks of a nesting depth, two for each level. -/
def newline (depth : Nat) : List Char :=
  '\n' :: List.replicate (2 * depth) ' '

mutual

/-- The text of a value at a nesting depth, with one item or member a line. -/
def indentedAt (depth : Nat) : Json → List Char
  | .null => "null".toList
  | .bool value => boolWord value
  | .string value => quote value
  | .array [] => ['[', ']']
  | .array (item :: rest) =>
      '[' :: indentedItems (depth + 1) (item :: rest) ++ newline depth ++ [']']
  | .object [] => ['{', '}']
  | .object (member :: rest) =>
      '{' :: indentedMembers (depth + 1) (member :: rest) ++ newline depth ++ ['}']

/-- Items on lines of their own. -/
def indentedItems (depth : Nat) : List Json → List Char
  | [] => []
  | [item] => newline depth ++ indentedAt depth item
  | item :: rest => newline depth ++ indentedAt depth item ++ ',' :: indentedItems depth rest

/-- Members on lines of their own. -/
def indentedMembers (depth : Nat) : List (String × Json) → List Char
  | [] => []
  | [(key, value)] => newline depth ++ quote key ++ ':' :: ' ' :: indentedAt depth value
  | (key, value) :: rest =>
      newline depth ++ quote key ++ ':' :: ' ' :: indentedAt depth value ++
        ',' :: indentedMembers depth rest

end

/-- The text of a value without any space. -/
def render (value : Json) : String :=
  String.ofList value.compact

/-- The text of a value with one item or member a line, indented by two. -/
def renderIndented (value : Json) : String :=
  String.ofList (value.indentedAt 0)

end Json
end ContractAdmission
