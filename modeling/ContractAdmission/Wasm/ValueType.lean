import ContractAdmission.Wasm.Reader

/-!
# Types of values

Numbers, vectors and references.  A reference refers to what is of a kind, or to
what is of a declared type.  Declared types go by their indices; what an index
means is not known here, so types are read as they are written and their indices
are replaced later.
-/

namespace ContractAdmission
namespace Wasm

/-- The kinds of things that can be referred to.  Four families have no members in
common; each has a kind that nothing is of. -/
inductive HeapKind where
  | function
  | noFunction
  | external
  | noExternal
  | exception
  | noException
  | any
  | eq
  | i31
  | struct
  | array
  | noObject
  deriving DecidableEq, Repr

namespace HeapKind

/-- The kind that a byte stands for. -/
def ofByte? (b : UInt8) : Option HeapKind :=
  match b.toNat with
  | 0x70 => some .function
  | 0x73 => some .noFunction
  | 0x6f => some .external
  | 0x72 => some .noExternal
  | 0x69 => some .exception
  | 0x74 => some .noException
  | 0x6e => some .any
  | 0x6d => some .eq
  | 0x6c => some .i31
  | 0x6b => some .struct
  | 0x6a => some .array
  | 0x71 => some .noObject
  | _ => none

/-- The kinds that are wider than a kind. -/
def wider : HeapKind → List HeapKind
  | .noFunction => [.function]
  | .noExternal => [.external]
  | .noException => [.exception]
  | .noObject => [.i31, .struct, .array, .eq, .any]
  | .i31 | .struct | .array => [.eq, .any]
  | .eq => [.any]
  | .function | .external | .exception | .any => []

/-- Whether all that is of one kind is of another. -/
def fits (first second : HeapKind) : Bool :=
  first = second || second ∈ first.wider

/-- The widest kind of the family of a kind. -/
def top : HeapKind → HeapKind
  | .function | .noFunction => .function
  | .external | .noExternal => .external
  | .exception | .noException => .exception
  | .any | .eq | .i31 | .struct | .array | .noObject => .any

/-- The kind that nothing is of, in the family of a kind. -/
def bottom (kind : HeapKind) : HeapKind :=
  match kind.top with
  | .function => .noFunction
  | .external => .noExternal
  | .exception => .noException
  | _ => .noObject

/-- Every kind fits the widest of its family. -/
theorem fits_top (kind : HeapKind) : kind.fits kind.top = true := by
  cases kind <;> rfl

/-- The kind that nothing is of fits every kind of its family. -/
theorem bottom_fits (kind : HeapKind) : kind.bottom.fits kind = true := by
  cases kind <;> rfl

/-- What fits a kind fits all that the kind fits. -/
theorem fits_trans {first second third : HeapKind} (h : first.fits second = true)
    (h' : second.fits third = true) : first.fits third = true := by
  revert h h'
  cases first <;> cases second <;> cases third <;> decide

end HeapKind

/-- What a reference refers to. -/
inductive HeapType where
  | kind (kind : HeapKind)
  | declared (index : Nat)
  /-- What a reference refers to that is never there. -/
  | unknown
  deriving DecidableEq, Repr

/-- The type of a reference, which may be null. -/
structure ReferenceType where
  nullable : Bool
  heap : HeapType
  deriving DecidableEq, Repr

/-- The types of values. -/
inductive ValueType where
  | i32
  | i64
  | f32
  | f64
  | v128
  | reference (type : ReferenceType)
  deriving DecidableEq, Repr

/-- The type of a block and of a function: what it takes and what it leaves. -/
structure FunctionType where
  params : List ValueType
  results : List ValueType
  deriving DecidableEq, Repr

namespace HeapType

/-- Read what a reference refers to: a kind, or an index that is not negative. -/
def read : Reader HeapType := fun bytes =>
  match bytes with
  | [] => none
  | b :: rest =>
      match HeapKind.ofByte? b with
      | some found => some (.kind found, rest)
      | none =>
          match Reader.signed 33 bytes with
          | some (index, later) => if 0 ≤ index then some (.declared index.toNat, later) else none
          | none => none

/-- Replace an index. -/
def reindex? (f : Nat → Option Nat) : HeapType → Option HeapType
  | .declared index => (f index).map .declared
  | other => some other

end HeapType

namespace ReferenceType

/-- References of a kind, or null. -/
def ofKind (kind : HeapKind) : ReferenceType := ⟨true, .kind kind⟩

/-- References that are not null. -/
def strict (type : ReferenceType) : ReferenceType := { type with nullable := false }

/-- References that may be null. -/
def lenient (type : ReferenceType) : ReferenceType := { type with nullable := true }

/-- Read the type of a reference that begins with a byte: a kind with null, or what
is referred to after a byte that says whether null is allowed. -/
def readAfter (b : UInt8) : Reader ReferenceType :=
  match b.toNat with
  | 0x63 => (⟨true, ·⟩) <$> HeapType.read
  | 0x64 => (⟨false, ·⟩) <$> HeapType.read
  | _ => ofKind <$> Reader.expect (HeapKind.ofByte? b)

/-- Read the type of a reference. -/
def read : Reader ReferenceType := do
  readAfter (← Reader.byte)

/-- Replace an index. -/
def reindex? (f : Nat → Option Nat) (type : ReferenceType) : Option ReferenceType :=
  (type.heap.reindex? f).map fun heap => { type with heap }

end ReferenceType

namespace ValueType

/-- References to functions, or null. -/
def functionReference : ValueType := .reference (.ofKind .function)

/-- The number or vector that a byte stands for. -/
def ofByte? (b : UInt8) : Option ValueType :=
  match b.toNat with
  | 0x7f => some .i32
  | 0x7e => some .i64
  | 0x7d => some .f32
  | 0x7c => some .f64
  | 0x7b => some .v128
  | _ => none

/-- Whether the type of a value can begin with a byte. -/
def begins (b : UInt8) : Bool :=
  (ofByte? b).isSome || (HeapKind.ofByte? b).isSome || b.toNat = 0x63 || b.toNat = 0x64

/-- Read the type of a value that begins with a byte. -/
def readAfter (b : UInt8) : Reader ValueType :=
  match ofByte? b with
  | some type => pure type
  | none => .reference <$> ReferenceType.readAfter b

/-- Read the type of a value. -/
def read : Reader ValueType := do
  readAfter (← Reader.byte)

/-- Whether values of the type are references. -/
def isReference : ValueType → Bool
  | .reference _ => true
  | _ => false

/-- Whether there is a value that a variable of the type has from the start. -/
def isDefaultable : ValueType → Bool
  | .reference type => type.nullable
  | _ => true

/-- Replace an index. -/
def reindex? (f : Nat → Option Nat) : ValueType → Option ValueType
  | .reference type => (type.reindex? f).map .reference
  | other => some other

end ValueType

namespace FunctionType

/-- The greatest number of parameters, and of results. -/
def maxArity : Nat := 1000

/-- Read the type of a function after its form. -/
def read : Reader FunctionType := do
  let params ← Reader.vector maxArity ValueType.read
  let results ← Reader.vector maxArity ValueType.read
  return ⟨params, results⟩

/-- Replace indices. -/
def reindex? (f : Nat → Option Nat) (type : FunctionType) : Option FunctionType := do
  let params ← type.params.mapM (ValueType.reindex? f)
  let results ← type.results.mapM (ValueType.reindex? f)
  return ⟨params, results⟩

end FunctionType
end Wasm
end ContractAdmission
