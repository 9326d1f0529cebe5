import ContractAdmission.Wasm.Typing

/-!
# Constant expressions

The expressions that give a global its first value, a table its first elements,
and a segment its place.  They are read up to their end mark and leave exactly
one value.  What they name of functions and globals is there before them, and the
globals do not change.
-/

namespace ContractAdmission
namespace Wasm

/-- A constant expression: its instructions with the end mark. -/
abbrev ConstExpr := List Instruction

namespace ConstExpr

/-- Read at most `bound` instructions up to the end mark. -/
def readSteps (engine : Engine) : Nat → Reader ConstExpr
  | 0 => Reader.refuse
  | bound + 1 => fun bytes =>
      match bytes with
      | 0x0b :: rest => some ([.close], rest)
      | _ =>
          if Instruction.beginsConstant bytes then
            (do
              let first ← Instruction.read engine
              return first :: (← readSteps engine bound) : Reader ConstExpr) bytes
          else none

/-- Read a constant expression.  Every instruction has at least one byte, so the
length of the bytes bounds their number. -/
def read (engine : Engine) : Reader ConstExpr := fun bytes =>
  readSteps engine bytes.length bytes

/-- The functions that an expression refers to. -/
def functions (expr : ConstExpr) : List Nat :=
  expr.filterMap fun
    | .refFunction index => some index
    | _ => none

/-- Whether an instruction reads no global that can change. -/
def isSteady (module : Module) : Instruction → Bool
  | .globalGet index => (module.globals[index]?.map fun type => !type.isMutable).getD false
  | _ => true

/-- Whether an expression leaves one value of a type and nothing else. -/
def leaves (module : Module) (type : ValueType) (expr : ConstExpr) : Bool :=
  expr.all (isSteady module) &&
    wellTyped { module with named := expr.functions ++ module.named } ⟨[], [type]⟩ [] expr

end ConstExpr
end Wasm
end ContractAdmission
