import ContractAdmission.Wasm.TypeTable

/-!
# Types of entities

The types of tables, memories and globals, and how they are read in the light of
the declared types.  What an engine admits of tables and memories depends on its
switches, which say nothing about how the bytes are read.
-/

namespace ContractAdmission
namespace Wasm

/-- The proposals that an engine has switched on. -/
structure Engine where
  multiMemory : Bool := true
  memory64 : Bool := true
  customPageSizes : Bool := false
  deriving DecidableEq, Repr

/-- The least size of a table or memory and, where it has one, the greatest. -/
structure Limits where
  least : Nat
  greatest : Option Nat
  deriving DecidableEq, Repr

/-- The greatest size does not lie below the least. -/
def Limits.ordered (limits : Limits) : Bool :=
  match limits.greatest with
  | none => true
  | some greatest => limits.least ≤ greatest

/-- Both sizes lie within a bound. -/
def Limits.within (limits : Limits) (bound : Nat) : Bool :=
  limits.least ≤ bound &&
    match limits.greatest with
    | none => true
    | some greatest => greatest ≤ bound

/-- Read limits whose numbers have at most `bits` bits. -/
def Limits.read (bits : Nat) (hasGreatest : Bool) : Reader Limits := do
  let least ← Reader.unsigned bits
  if hasGreatest then
    let greatest ← Reader.unsigned bits
    return ⟨least, some greatest⟩
  else
    return ⟨least, none⟩

/-- Whether a bit of a flag byte is set. -/
def flag (flags : UInt8) (bit : Nat) : Bool :=
  flags.toNat.testBit bit

/-- The number of bits of the numbers in limits. -/
def addressBits (index64 : Bool) : Nat :=
  if index64 then 64 else 32

/-- The type of the addresses of a table or memory. -/
def addressType (index64 : Bool) : ValueType :=
  if index64 then .i64 else .i32

/-- The elements, the limits and the index width of a table. -/
structure TableType where
  element : ReferenceType
  limits : Limits
  shared : Bool
  index64 : Bool
  deriving DecidableEq, Repr

namespace TableType

/-- Read the type of a table. -/
def read (types : TypeTable) : Reader TableType := do
  let element ← types.readReference
  let flags ← Reader.byte
  Reader.require (flags.toNat < 8)
  let index64 := flag flags 2
  let limits ← Limits.read (addressBits index64) (flag flags 0)
  return ⟨element, limits, flag flags 1, index64⟩

/-- Whether an engine admits a table. -/
def admitted (engine : Engine) (type : TableType) : Bool :=
  !type.shared && type.limits.ordered && (!type.index64 || engine.memory64)

end TableType

/-- The limits of a memory in pages, the width of its addresses, and the size of
its pages as a power of two where it has one of its own. -/
structure MemoryType where
  limits : Limits
  shared : Bool
  index64 : Bool
  pageBits : Option Nat
  deriving DecidableEq, Repr

namespace MemoryType

/-- Read the type of a memory. -/
def read : Reader MemoryType := do
  let flags ← Reader.byte
  Reader.require (flags.toNat < 16)
  let index64 := flag flags 2
  let limits ← Limits.read (addressBits index64) (flag flags 0)
  let pageBits ← if flag flags 3 then some <$> Reader.u32 else pure none
  return ⟨limits, flag flags 1, index64, pageBits⟩

/-- The greatest number of pages that addresses of the memory can reach. -/
def maxPages (type : MemoryType) : Nat :=
  match type.index64, type.pageBits with
  | false, some 0 => valueCount 32
  | false, _ => valueCount 16
  | true, some 0 => valueCount 64 - 1
  | true, _ => valueCount 48

/-- Pages have one byte or 2¹⁶ of them. -/
def pageSizeKnown (type : MemoryType) : Bool :=
  match type.pageBits with
  | none => true
  | some bits => bits = 0 || bits = 16

/-- Whether an engine admits a memory. -/
def admitted (engine : Engine) (type : MemoryType) : Bool :=
  type.pageSizeKnown && type.limits.ordered && type.limits.within type.maxPages &&
    (!type.shared || type.limits.greatest.isSome) &&
    (!type.index64 || engine.memory64) &&
    (type.pageBits.isNone || engine.customPageSizes)

end MemoryType

/-- The type of the values of a global, and whether it can change. -/
structure GlobalType where
  value : ValueType
  isMutable : Bool
  deriving DecidableEq, Repr

/-- Read the type of a global. -/
def GlobalType.read (types : TypeTable) : Reader GlobalType := do
  let value ← types.readValue
  let flags ← Reader.byte
  Reader.require (flags.toNat < 2)
  return ⟨value, flags.toNat = 1⟩

end Wasm
end ContractAdmission
