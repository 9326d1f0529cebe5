import ContractAdmission.Text.Utf8

/-!
# The characters of a document

A document is read from bytes.  Ill formed encodings and characters that must
not occur are faults, but a fault is met only when reading gets to the block that
has it: bytes are decoded in blocks of 8192, and characters are handed on in
blocks, the first of 8192 characters and the others of 4096.
-/

namespace ContractAdmission
namespace Yaml

/-- Why a document has no value. -/
inductive Fault where
  /-- The bytes are not UTF-8. -/
  | undecodable
  /-- A character must not occur. -/
  | unprintable
  /-- The characters make no token. -/
  | token
  /-- The tokens make no document. -/
  | «structure»
  /-- An anchor is declared twice or not at all, or there is more than one
  document. -/
  | reference
  /-- A node cannot have the tag that it has. -/
  | construction
  /-- A number or a date does not exist. -/
  | impossibleValue
  /-- A number is too large to be tried. -/
  | overflow
  /-- A word stands for no truth value. -/
  | unknownWord
  /-- A number has no digits. -/
  | emptyNumber
  /-- A text has not the form of a date. -/
  | malformedDate
  /-- A date is asked of something that is no text. -/
  | notDatable
  /-- The document is nested too deeply, perhaps without end. -/
  | tooDeep
  deriving DecidableEq, Repr

/-- Whether a character may occur in a document. -/
def isAllowed (c : Char) : Bool :=
  let n := c.toNat
  n == 0x09 || n == 0x0a || n == 0x0d || (0x20 ≤ n && n ≤ 0x7e) || n == 0x85 ||
    (0xa0 ≤ n && n ≤ 0xd7ff) || (0xe000 ≤ n && n ≤ 0xfffd) || 0x10000 ≤ n

/-- Every line end that begins with a carriage return as a line feed. -/
def normaliseLines : List Char → List Char
  | [] => []
  | '\r' :: '\n' :: rest => '\n' :: normaliseLines rest
  | c :: rest => (if c = '\r' then '\n' else c) :: normaliseLines rest

/-- The characters that can be reached, and the fault that is met after them. -/
structure Source where
  chars : List Char
  fault : Option Fault
  deriving DecidableEq, Repr

namespace Source

/-- The number of bytes in a block of bytes. -/
def byteBlock : Nat := 8192

/-- The number of characters in the first block. -/
def firstBlock : Nat := 8192

/-- The number of characters in a later block. -/
def laterBlock : Nat := 4096

/-- Where the block begins that has the character at a place. -/
def blockStart (place : Nat) : Nat :=
  if place < firstBlock then 0
  else firstBlock + (place - firstBlock) / laterBlock * laterBlock

/-- The characters of the blocks of bytes before the one with an ill formed
encoding, and whether there is such a block. -/
def readable (bytes : Bytes) : List Char × Bool :=
  match Text.utf8Decode bytes with
  | (chars, .clean) => (normaliseLines chars, true)
  | (chars, .truncated) => (normaliseLines chars, false)
  | (_, .invalid offset) =>
      let before := bytes.take (offset / byteBlock * byteBlock)
      (normaliseLines (Text.utf8Decode before).1, false)

/-- The fault after characters that can be read, and the place of the block that
has it. -/
def faultAt (chars : List Char) (clean : Bool) : Option (Nat × Fault) :=
  let broken := if clean then none else some (blockStart chars.length, Fault.undecodable)
  match chars.findIdx? (fun c => !isAllowed c), broken with
  | none, broken => broken
  | some place, none => some (blockStart place, .unprintable)
  | some place, some (start, fault) =>
      if blockStart place < start then some (blockStart place, .unprintable)
      else some (start, fault)

/-- The characters of a document that is given as bytes. -/
def ofBytes (bytes : Bytes) : Source :=
  let (chars, clean) := readable bytes
  match faultAt chars clean with
  | none => ⟨chars, none⟩
  | some (start, fault) => ⟨chars.take start, some fault⟩

end Source
end Yaml
end ContractAdmission
