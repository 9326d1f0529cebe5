import ContractAdmission.Yaml.Scalar

/-!
# Tokens

The tokens of a document, and the reading of those that have a text: anchors,
tags and directives.
-/

namespace ContractAdmission
namespace Yaml

/-- A tag as it is written: a handle, if it has one, and what follows it. -/
structure TagText where
  handle : Option String
  suffix : String
  deriving DecidableEq, Repr

/-- An instruction to the reader of a document. -/
inductive Directive where
  | version (major : Nat)
  | tag (handle meaning : String)
  | other
  deriving DecidableEq, Repr

/-- One token. -/
inductive Token where
  | streamEnd
  | directive (directive : Directive)
  | documentStart
  | documentEnd
  | blockSequenceStart
  | blockMappingStart
  | blockEnd
  | flowSequenceStart
  | flowSequenceEnd
  | flowMappingStart
  | flowMappingEnd
  | blockEntry
  | flowEntry
  | key
  | value
  | alias (name : String)
  | anchor (name : String)
  | tag (tag : TagText)
  | scalar (text : CodeText) (plain : Bool)
  deriving DecidableEq, Repr

namespace Lexer

/-- Whether a character may stand in the name of an anchor or of a handle. -/
def isWord (c : Char) : Bool :=
  c.isAlphanum || c == '-' || c == '_'

/-- Whether a character may follow the name of an anchor. -/
def endsAnchor (c : Char) : Bool :=
  isBlankOrEnd c || "?:,]\x7d%@\x60".toList.contains c

/-- The name of an anchor, after its indicator. -/
def anchorName : Lexer String := do
  advance 1
  let name ← takeWhile isWord
  if name = [] then refuse
  if endsAnchor (← peek) then return String.ofList name else refuse

/-- Whether a character may stand in the suffix of a tag. -/
def isUri (c : Char) : Bool :=
  c.isAlphanum || "-;/?:@&=+$,_.!~*'()[]".toList.contains c

/-- The bytes that a run of percent escapes stands for. -/
def uriBytes : Nat → Lexer Bytes
  | 0 => return []
  | bound + 1 => do
      if (← peek) ≠ '%' then return []
      advance 1
      let b ← peekHex 2
      advance 2
      return UInt8.ofNat b :: (← uriBytes bound)

/-- The text of a tag up to a character that cannot stand in one. -/
def uriText : Nat → Lexer (List Char)
  | 0 => return []
  | limit + 1 => do
      let plain ← takeWhile isUri
      if (← peek) = '%' then
        let bytes ← uriBytes (← bound)
        match String.fromUTF8? ⟨bytes.toArray⟩ with
        | some text => return plain ++ text.toList ++ (← uriText limit)
        | none => refuse
      else return plain

/-- The text of a tag, which has to begin with a character of one. -/
def uri : Lexer String := do
  let c ← peek
  if isUri c || c == '%' then
    return String.ofList (← uriText (← bound))
  else refuse

/-- A handle: an exclamation mark on its own, or a word between two of them. -/
def tagHandle : Lexer String := do
  if (← peek) ≠ '!' then refuse
  if (← peekAt 1) = ' ' then
    advance 1
    return "!"
  else
    advance 1
    let word ← takeWhile isWord
    if (← peek) ≠ '!' then refuse
    advance 1
    return String.ofList ('!' :: word ++ ['!'])

/-- Whether a second exclamation mark stands before the next space. -/
def hasHandle (rest : List Char) : Bool :=
  match (rest.drop 1).dropWhile fun c => !(c == '!' || isSpaceOrEnd c) with
  | c :: _ => c == '!'
  | [] => false

/-- A tag. -/
def tag : Lexer TagText := do
  let c ← peekAt 1
  let text ←
    if c = '<' then do
      advance 2
      let suffix ← uri
      if (← peek) ≠ '>' then refuse
      advance 1
      pure ⟨none, suffix⟩
    else if isBlankOrEnd c then do
      advance 1
      pure ⟨none, "!"⟩
    else do
      let rest := (← get).rest
      if (rest.drop 1).all fun c => !(c == '!' || isSpaceOrEnd c) then meetFault
      let handle ← if hasHandle rest then tagHandle else (do advance 1; pure "!")
      pure ⟨some handle, ← uri⟩
  if isSpaceOrEnd (← peek) then return text else refuse

/-- The greatest number of digits of a number. -/
def maxDigits : Nat := 4300

/-- A number in a directive. -/
def directiveNumber : Lexer Nat := do
  let digits ← takeWhile Char.isDigit
  if digits = [] then refuse
  if maxDigits < digits.length then throw .impossibleValue
  return digits.foldl (fun n c => 10 * n + (c.toNat - 0x30)) 0

/-- The version that a directive asks for. -/
def versionDirective : Lexer Directive := do
  skipWhile (· == ' ')
  let major ← directiveNumber
  if (← peek) ≠ '.' then refuse
  advance 1
  let _ ← directiveNumber
  if isSpaceOrEnd (← peek) then return .version major else refuse

/-- The handle that a directive declares. -/
def tagDirective : Lexer Directive := do
  skipWhile (· == ' ')
  let handle ← tagHandle
  if (← peek) ≠ ' ' then refuse
  skipWhile (· == ' ')
  let meaning ← uri
  if isSpaceOrEnd (← peek) then return .tag handle meaning else refuse

/-- A directive, which takes the rest of its line. -/
def directive : Lexer Directive := do
  advance 1
  let name ← takeWhile isWord
  if name = [] then refuse
  if !isSpaceOrEnd (← peek) then refuse
  let found ←
    if name = "YAML".toList then versionDirective
    else if name = "TAG".toList then tagDirective
    else do
      skipWhile fun c => !isLineEnd c
      pure Directive.other
  restOfLine
  return found

end Lexer
end Yaml
end ContractAdmission
