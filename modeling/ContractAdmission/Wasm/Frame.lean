import ContractAdmission.Wasm.TypeTable

/-!
# Operands and open blocks

What is known at a point of a body: the types of the values that were left and not
taken yet.  Every open block is a frame with operands of its own.  After an
instruction that never goes on, a frame is dead, and any operand that is asked of
it and not there can have any type.

A local that has no value from the start can be read only where it has been set,
in the block that set it.
-/

namespace ContractAdmission
namespace Wasm

/-- The kinds of block that a frame stands for. -/
inductive Opener where
  | block
  | loop
  | conditional
  deriving DecidableEq, Repr

/-- An open block.  An operand of unknown type is `none`. -/
structure Frame where
  opener : Opener
  params : List ValueType
  results : List ValueType
  operands : List (Option ValueType) := []
  dead : Bool := false
  /-- The locals that have no value yet. -/
  unset : List Nat := []
  deriving DecidableEq, Repr

/-- The types that a jump to a frame takes. -/
def Frame.labelTypes (frame : Frame) : List ValueType :=
  match frame.opener with
  | .loop => frame.params
  | _ => frame.results

/-- What typing knows at a point of a body: the innermost frame, and the frames
around it. -/
structure Typing where
  inner : Frame
  outer : List Frame
  deriving DecidableEq, Repr

namespace Typing

/-- Leave one operand. -/
def push (type : Option ValueType) (typing : Typing) : Typing :=
  { typing with inner.operands := type :: typing.inner.operands }

/-- Leave a reference. -/
def pushReference (type : ReferenceType) (typing : Typing) : Typing :=
  typing.push (some (.reference type))

/-- Leave operands, the last one on top. -/
def pushAll (types : List ValueType) (typing : Typing) : Typing :=
  types.foldl (fun typing type => typing.push (some type)) typing

/-- Take one operand of any type. -/
def popAny (typing : Typing) : Option (Option ValueType × Typing) :=
  match typing.inner.operands with
  | [] => if typing.inner.dead then some (none, typing) else none
  | top :: rest => some (top, { typing with inner.operands := rest })

/-- Take one operand of a type. -/
def pop (table : TypeTable) (type : ValueType) (typing : Typing) : Option Typing :=
  match typing.popAny with
  | some (none, rest) => some rest
  | some (some found, rest) => if table.fits found type then some rest else none
  | none => none

/-- Take one reference of any type. -/
def popReference (typing : Typing) : Option (ReferenceType × Typing) :=
  match typing.popAny with
  | some (none, rest) => some (⟨false, .unknown⟩, rest)
  | some (some (.reference type), rest) => some (type, rest)
  | _ => none

/-- Take operands, the last one from the top. -/
def popAll (table : TypeTable) (types : List ValueType) (typing : Typing) : Option Typing :=
  types.reverse.foldlM (fun typing type => typing.pop table type) typing

/-- Take operands and leave others. -/
def exchange (table : TypeTable) (params results : List ValueType) (typing : Typing) :
    Option Typing :=
  (typing.popAll table params).map (·.pushAll results)

/-- Nothing after this point is reached. -/
def die (typing : Typing) : Typing :=
  { typing with inner.operands := [], inner.dead := true }

/-- A local has a value from here on. -/
def setLocal (index : Nat) (typing : Typing) : Typing :=
  { typing with inner.unset := typing.inner.unset.filter (· ≠ index) }

/-- The types that a jump to a label takes. -/
def labelTypes? (label : Nat) (typing : Typing) : Option (List ValueType) :=
  (typing.inner :: typing.outer)[label]?.map (·.labelTypes)

/-- Open a block of a type, whose parameters were taken. -/
def enter (opener : Opener) (type : FunctionType) (typing : Typing) : Typing :=
  let frame : Frame :=
    { opener, params := type.params, results := type.results, unset := typing.inner.unset }
  Typing.pushAll type.params ⟨frame, typing.inner :: typing.outer⟩

/-- The frame of a finished block, which has to leave its results and nothing
else. -/
def finished (table : TypeTable) (typing : Typing) : Option Frame := do
  let typing ← typing.popAll table typing.inner.results
  if typing.inner.operands = [] then some typing.inner else none

end Typing

end Wasm
end ContractAdmission
