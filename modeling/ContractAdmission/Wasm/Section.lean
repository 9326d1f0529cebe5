import ContractAdmission.Wasm.Reader

/-!
# Sections

A binary is a header and a sequence of sections, each of which states its size.
`Section.split` cuts a binary into its sections without reading what is in them.
-/

namespace ContractAdmission
namespace Wasm

/-- The kinds of section. -/
inductive SectionId where
  | custom
  | types
  | imports
  | functions
  | tables
  | memories
  | globals
  | exports
  | start
  | elements
  | code
  | data
  | dataCount
  | tags
  deriving DecidableEq, Repr

namespace SectionId

/-- The sections in the order of the bytes that announce them. -/
def all : List SectionId :=
  [.custom, .types, .imports, .functions, .tables, .memories, .globals, .exports,
    .start, .elements, .code, .data, .dataCount, .tags]

/-- The section that a byte announces. -/
def ofByte? (b : UInt8) : Option SectionId := all[b.toNat]?

/-- The order in which the sections of a binary stand.  Custom sections stand
anywhere. -/
def order : List SectionId :=
  [.types, .imports, .functions, .tables, .memories, .tags, .globals, .exports,
    .start, .elements, .dataCount, .code, .data]

/-- The place of a section in the order. -/
def rank (id : SectionId) : Nat := order.idxOf id

end SectionId

/-- A section: its kind and its contents. -/
structure Section where
  id : SectionId
  contents : Bytes
  deriving DecidableEq, Repr

/-- The four bytes with which every binary begins. -/
def magic : Bytes := [0x00, 0x61, 0x73, 0x6d]

/-- The bytes before the first section: the magic ones and the version. -/
def header : Bytes := magic ++ [0x01, 0x00, 0x00, 0x00]

namespace Section

/-- Read one section. -/
def read : Reader Section := do
  let b ← Reader.byte
  let id ← Reader.expect (SectionId.ofByte? b)
  let size ← Reader.u32
  let contents ← Reader.take size
  return ⟨id, contents⟩

/-- Read sections until the bytes end.  Every section has at least one byte, so
the length of the bytes bounds their number. -/
def readAll : Nat → Bytes → Option (List Section)
  | _, [] => some []
  | 0, _ :: _ => none
  | bound + 1, bytes =>
      match read bytes with
      | none => none
      | some (first, rest) => (readAll bound rest).map (first :: ·)

/-- The sections of a binary. -/
def split (bytes : Bytes) : Option (List Section) :=
  if bytes.take header.length = header then
    readAll bytes.length (bytes.drop header.length)
  else none

end Section
end Wasm
end ContractAdmission
