import ContractAdmission.Wasm.Operation
import ContractAdmission.Wasm.Types

/-!
# Instructions

The instructions of function bodies, and how they are read.  What an instruction
does at run time is of no concern here, so those that take and leave the same
types are one constructor.

* `Instruction.read` reads one instruction.
* `Instruction.beginsConstant` says which ones a constant expression may have.
-/

namespace ContractAdmission
namespace Wasm

/-- The type of a block: one or no result, or the index of a function type. -/
inductive BlockType where
  | empty
  | result (type : ValueType)
  | indexed (index : Nat)
  deriving DecidableEq, Repr

/-- The alignment, the offset and the memory of an access. -/
structure Access where
  alignment : Nat
  offset : Nat
  memory : Nat
  deriving DecidableEq, Repr

/-- Where an exception is caught: those of a tag or all, passed on with or without
a reference to the exception, at a label. -/
structure Handler where
  tag : Option Nat
  withReference : Bool
  label : Nat
  deriving DecidableEq, Repr

/-- One instruction. -/
inductive Instruction where
  | unreachable
  | block (type : BlockType)
  | loop (type : BlockType)
  | conditional (type : BlockType)
  | guarded (type : BlockType) (handlers : List Handler)
  | otherwise
  | close
  | jump (label : Nat)
  | jumpIf (label : Nat)
  | jumpTable (labels : List Nat) (last : Nat)
  | jumpOnNull (label : Nat)
  | jumpOnNonNull (label : Nat)
  | jumpOnCast (label : Nat) (source target : ReferenceType)
  | jumpOnCastFailure (label : Nat) (source target : ReferenceType)
  | leave
  | raise (tag : Nat)
  | raiseReference
  | call (function : Nat)
  | callIndirect (type table : Nat)
  | callReference (type : Nat)
  | tailCall (function : Nat)
  | tailCallIndirect (type table : Nat)
  | tailCallReference (type : Nat)
  | drop
  | select (type : Option ValueType)
  | localGet (index : Nat)
  | localSet (index : Nat)
  | localTee (index : Nat)
  | globalGet (index : Nat)
  | globalSet (index : Nat)
  | tableGet (index : Nat)
  | tableSet (index : Nat)
  | tableSize (index : Nat)
  | tableGrow (index : Nat)
  | tableFill (index : Nat)
  | tableCopy (target source : Nat)
  | tableInit (segment table : Nat)
  | elementDrop (segment : Nat)
  | memorySize (index : Nat)
  | memoryGrow (index : Nat)
  | memoryFill (index : Nat)
  | memoryCopy (target source : Nat)
  | memoryInit (segment memory : Nat)
  | dataDrop (segment : Nat)
  /-- An access to memory of so many bytes as a power of two, and what it takes
  after the address and leaves.  Some accesses have to be aligned. -/
  | access (width : Nat) (aligned : Bool) (params results : List ValueType) (place : Access)
  /-- An operation that depends on nothing but its operands. -/
  | operation (params results : List ValueType)
  | refNull (heap : HeapType)
  | refIsNull
  | refFunction (index : Nat)
  | refAsNonNull
  | refTest (type : ReferenceType)
  | refCast (type : ReferenceType)
  /-- References of one kind become references of another. -/
  | refConvert (source target : HeapKind)
  | structNew (type : Nat)
  | structNewDefault (type : Nat)
  | structGet (type field : Nat) (packed : Bool)
  | structSet (type field : Nat)
  | arrayNew (type : Nat)
  | arrayNewDefault (type : Nat)
  | arrayNewFixed (type count : Nat)
  | arrayNewData (type segment : Nat)
  | arrayNewElements (type segment : Nat)
  | arrayGet (type : Nat) (packed : Bool)
  | arraySet (type : Nat)
  | arrayFill (type : Nat)
  | arrayCopy (target source : Nat)
  | arrayInitData (type segment : Nat)
  | arrayInitElements (type segment : Nat)
  deriving DecidableEq, Repr

namespace Instruction

/-- The greatest number of labels of a jump table. -/
def maxLabels : Nat := 7654321

/-- The greatest number of handlers of a block. -/
def maxHandlers : Nat := 10000

/-- The greatest number of elements of an array that are given one by one. -/
def maxFixedElements : Nat := 10000

open Reader

/-- Read the type of a block.  A type begins with a byte of its own; an index is a
number that is not negative. -/
def readBlockType : Reader BlockType := fun bytes =>
  match bytes with
  | [] => none
  | b :: rest =>
      if b.toNat = 0x40 then some (.empty, rest)
      else if ValueType.begins b then (.result <$> ValueType.readAfter b : Reader _) rest
      else
        match signed 33 bytes with
        | some (index, later) =>
            if 0 ≤ index then some (.indexed index.toNat, later) else none
        | none => none

/-- Read the index of a memory.  Where there can be only one it is a zero byte. -/
def readMemoryIndex (engine : Engine) : Reader Nat := do
  if engine.multiMemory then u32
  else
    let b ← byte
    require (b.toNat = 0)
    return 0

/-- Read the alignment and the offset of an access.  A high bit in the alignment
says that the number of the memory follows, if there can be several. -/
def readAccess (engine : Engine) : Reader Access := do
  let alignment ← u32
  let numbered := engine.multiMemory && alignment.testBit 6
  let memory ← if numbered then u32 else pure 0
  let offset ← if engine.memory64 then u64 else u32
  return ⟨if numbered then alignment - 0x40 else alignment, offset, memory⟩

/-- Read where an exception is caught. -/
def readHandler : Reader Handler := do
  let form ← byte
  match form.toNat with
  | 0 => return ⟨some (← u32), false, ← u32⟩
  | 1 => return ⟨some (← u32), true, ← u32⟩
  | 2 => return ⟨none, false, ← u32⟩
  | 3 => return ⟨none, true, ← u32⟩
  | _ => refuse

/-- Read an operation on bytes and tables, and a conversion that saturates. -/
def readBulk (engine : Engine) : Reader Instruction := do
  let code ← u32
  match Operation.saturatingType? code with
  | some (params, results) => return .operation params results
  | none =>
      match code with
      | 8 => return .memoryInit (← u32) (← readMemoryIndex engine)
      | 9 => return .dataDrop (← u32)
      | 10 => return .memoryCopy (← readMemoryIndex engine) (← readMemoryIndex engine)
      | 11 => return .memoryFill (← readMemoryIndex engine)
      | 12 => return .tableInit (← u32) (← u32)
      | 13 => return .elementDrop (← u32)
      | 14 => return .tableCopy (← u32) (← u32)
      | 15 => return .tableGrow (← u32)
      | 16 => return .tableSize (← u32)
      | 17 => return .tableFill (← u32)
      | _ => refuse

/-- Read a jump that depends on a cast, after its flags. -/
def readCastJump (onFailure : Bool) : Reader Instruction := do
  let flags ← byte
  require (flags.toNat < 4)
  let label ← u32
  let source : ReferenceType := ⟨flag flags 0, ← HeapType.read⟩
  let target : ReferenceType := ⟨flag flags 1, ← HeapType.read⟩
  return if onFailure then .jumpOnCastFailure label source target
    else .jumpOnCast label source target

/-- Read an operation on structures, arrays and references. -/
def readObject : Reader Instruction := do
  let code ← u32
  match code with
  | 0 => return .structNew (← u32)
  | 1 => return .structNewDefault (← u32)
  | 2 => return .structGet (← u32) (← u32) false
  | 3 | 4 => return .structGet (← u32) (← u32) true
  | 5 => return .structSet (← u32) (← u32)
  | 6 => return .arrayNew (← u32)
  | 7 => return .arrayNewDefault (← u32)
  | 8 => return .arrayNewFixed (← u32) (← u32)
  | 9 => return .arrayNewData (← u32) (← u32)
  | 10 => return .arrayNewElements (← u32) (← u32)
  | 11 => return .arrayGet (← u32) false
  | 12 | 13 => return .arrayGet (← u32) true
  | 14 => return .arraySet (← u32)
  | 15 => return .operation [.reference (.ofKind .array)] [.i32]
  | 16 => return .arrayFill (← u32)
  | 17 => return .arrayCopy (← u32) (← u32)
  | 18 => return .arrayInitData (← u32) (← u32)
  | 19 => return .arrayInitElements (← u32) (← u32)
  | 20 => return .refTest ⟨false, ← HeapType.read⟩
  | 21 => return .refTest ⟨true, ← HeapType.read⟩
  | 22 => return .refCast ⟨false, ← HeapType.read⟩
  | 23 => return .refCast ⟨true, ← HeapType.read⟩
  | 24 => readCastJump false
  | 25 => readCastJump true
  | 26 => return .refConvert .external .any
  | 27 => return .refConvert .any .external
  | 28 => return .operation [.i32] [.reference ⟨false, .kind .i31⟩]
  | 29 | 30 => return .operation [.reference (.ofKind .i31)] [.i32]
  | _ => refuse

/-- Read an operation on vectors. -/
def readVector (engine : Engine) : Reader Instruction := do
  let code ← u32
  match Operation.vectorType? code with
  | some (params, results) => return .operation params results
  | none =>
      match Operation.laneType? code with
      | some (lanes, params, results) =>
          let lane ← byte
          require (lane.toNat < lanes)
          return .operation params results
      | none =>
          match Operation.vectorAccess? code with
          | some (width, params, results) =>
              return .access width false params results (← readAccess engine)
          | none =>
              match Operation.laneAccess? code with
              | some (width, params, results) =>
                  let place ← readAccess engine
                  let lane ← byte
                  require (lane.toNat < Nat.pow 2 (4 - width))
                  return .access width false params results place
              | none =>
                  let bytes ← take 16
                  if code = 12 then return .operation [] [.v128]
                  else
                    require (code = 13 ∧ bytes.all fun lane => lane.toNat < 32)
                    return .operation [.v128, .v128] [.v128]

/-- Read an atomic operation. -/
def readAtomic (engine : Engine) : Reader Instruction := do
  let code ← u32
  match Operation.atomicAccess? code with
  | some (width, params, results) =>
      return .access width true params results (← readAccess engine)
  | none =>
      require (code = 3)
      let b ← byte
      require (b.toNat = 0)
      return .operation [] []

/-- Read an instruction of a code that stands for a load, a store, or arithmetic on
numbers. -/
def readPlain (engine : Engine) (code : Nat) : Reader Instruction :=
  match Operation.loadType? code with
  | some (type, width) => .access width false [] [type] <$> readAccess engine
  | none =>
      match Operation.storeType? code with
      | some (type, width) => .access width false [type] [] <$> readAccess engine
      | none => do
          let (params, results) ← expect (Operation.numericType? code)
          return .operation params results

/-- Read one instruction. -/
def read (engine : Engine) : Reader Instruction := do
  let code ← byte
  match code.toNat with
  | 0x00 => return .unreachable
  | 0x01 => return .operation [] []
  | 0x02 => return .block (← readBlockType)
  | 0x03 => return .loop (← readBlockType)
  | 0x04 => return .conditional (← readBlockType)
  | 0x05 => return .otherwise
  | 0x08 => return .raise (← u32)
  | 0x0a => return .raiseReference
  | 0x0b => return .close
  | 0x0c => return .jump (← u32)
  | 0x0d => return .jumpIf (← u32)
  | 0x0e => return .jumpTable (← vector maxLabels u32) (← u32)
  | 0x0f => return .leave
  | 0x10 => return .call (← u32)
  | 0x11 => return .callIndirect (← u32) (← u32)
  | 0x12 => return .tailCall (← u32)
  | 0x13 => return .tailCallIndirect (← u32) (← u32)
  | 0x14 => return .callReference (← u32)
  | 0x15 => return .tailCallReference (← u32)
  | 0x1a => return .drop
  | 0x1b => return .select none
  | 0x1c =>
      let count ← u32
      require (count = 1)
      return .select (some (← ValueType.read))
  | 0x1f => return .guarded (← readBlockType) (← vector maxHandlers readHandler)
  | 0x20 => return .localGet (← u32)
  | 0x21 => return .localSet (← u32)
  | 0x22 => return .localTee (← u32)
  | 0x23 => return .globalGet (← u32)
  | 0x24 => return .globalSet (← u32)
  | 0x25 => return .tableGet (← u32)
  | 0x26 => return .tableSet (← u32)
  | 0x3f => return .memorySize (← readMemoryIndex engine)
  | 0x40 => return .memoryGrow (← readMemoryIndex engine)
  | 0x41 => let _ ← signed 32; return .operation [] [.i32]
  | 0x42 => let _ ← signed 64; return .operation [] [.i64]
  | 0x43 => let _ ← take 4; return .operation [] [.f32]
  | 0x44 => let _ ← take 8; return .operation [] [.f64]
  | 0xd0 => return .refNull (← HeapType.read)
  | 0xd1 => return .refIsNull
  | 0xd2 => return .refFunction (← u32)
  | 0xd3 =>
      return .operation [.reference (.ofKind .eq), .reference (.ofKind .eq)] [.i32]
  | 0xd4 => return .refAsNonNull
  | 0xd5 => return .jumpOnNull (← u32)
  | 0xd6 => return .jumpOnNonNull (← u32)
  | 0xfb => readObject
  | 0xfc => readBulk engine
  | 0xfd => readVector engine
  | 0xfe => readAtomic engine
  | other => readPlain engine other

/-- Read instructions until the bytes end.  Every instruction has at least one
byte, so the length of the bytes bounds their number. -/
def readAll (engine : Engine) : Nat → Bytes → Option (List Instruction)
  | _, [] => some []
  | 0, _ :: _ => none
  | bound + 1, bytes =>
      match read engine bytes with
      | none => none
      | some (first, rest) => (readAll engine bound rest).map (first :: ·)

/-- The codes of the instructions that a constant expression may have: constants,
sums, differences and products of whole numbers, globals, and references. -/
def constantCodes : List Nat :=
  [0x23, 0x41, 0x42, 0x43, 0x44, 0x6a, 0x6b, 0x6c, 0x7c, 0x7d, 0x7e, 0xd0, 0xd2]

/-- The codes of the operations on objects that a constant expression may have:
those that make one, and those that make another reference of one. -/
def constantObjectCodes : List Nat := [0, 1, 6, 7, 8, 26, 27, 28]

/-- Whether bytes begin with an instruction that a constant expression may have. -/
def beginsConstant : Bytes → Bool
  | [] => false
  | b :: rest =>
      let later := ((u32 rest).map (·.1)).getD 0
      b.toNat ∈ constantCodes || (b.toNat = 0xfb && later ∈ constantObjectCodes) ||
        (b.toNat = 0xfd && later = 12)

end Instruction
end Wasm
end ContractAdmission
