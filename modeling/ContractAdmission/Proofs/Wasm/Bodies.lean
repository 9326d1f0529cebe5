import ContractAdmission.Proofs.Wasm.Entities
import ContractAdmission.Wasm.Decode

/-!
# Reading the constants and the bodies of a blueprint

The constants that globals begin with leave one value of the type that is asked for,
and the bodies have any type of functions, since what follows an instruction that is
never left can have any type.  Neither depends on what else the module declares, and
neither changes it.
-/

namespace ContractAdmission
namespace Wasm

open Reader

/-- The instruction of a constant of a type. -/
def constantOf : ValueType → Instruction
  | .reference type => .refNull type.heap
  | type => .operation [] [type]

/-- The bytes of a constant are those of its instruction and the end mark. -/
theorem ConstantForm.split {type : ValueType} {bytes : Bytes} (h : ConstantForm type bytes) :
    ∃ code, code ≠ [] ∧ bytes = code ++ [0x0b] ∧
      (∀ rest, Instruction.beginsConstant (code ++ rest) = true) ∧
      Reads (Instruction.read {}) code (constantOf type) := by
  cases h with
  | i32 => exact ⟨[0x41, 0x00], by simp, rfl, fun _ => rfl, fun _ => rfl⟩
  | i64 => exact ⟨[0x42, 0x00], by simp, rfl, fun _ => rfl, fun _ => rfl⟩
  | f32 => exact ⟨[0x43, 0, 0, 0, 0], by simp, rfl, fun _ => rfl, fun _ => rfl⟩
  | f64 => exact ⟨[0x44, 0, 0, 0, 0, 0, 0, 0, 0], by simp, rfl, fun _ => rfl, fun _ => rfl⟩
  | v128 =>
      exact ⟨0xfd :: 0x0c :: List.replicate 16 0x00, by simp, rfl, fun _ => rfl, fun _ => rfl⟩
  | null kind =>
      refine ⟨[0xd0, kind.code], by simp, rfl, fun _ => rfl, ?_⟩
      cases kind <;> exact fun _ => rfl

/-- No constant begins with the end mark, so its first instruction is read. -/
theorem ConstExpr.readSteps_of_begins {engine : Engine} {bytes : Bytes} (bound : Nat)
    (h : Instruction.beginsConstant bytes = true) :
    ConstExpr.readSteps engine (bound + 1) bytes =
      (do
        let first ← Instruction.read engine
        return first :: (← ConstExpr.readSteps engine bound) : Reader ConstExpr) bytes := by
  simp only [ConstExpr.readSteps]
  split
  · simp [Instruction.beginsConstant, Instruction.constantCodes] at h
  · rw [if_pos h]

theorem ConstantForm.reads {type : ValueType} {bytes : Bytes} (h : ConstantForm type bytes) :
    Reads (ConstExpr.read {}) bytes [constantOf type, .close] := by
  obtain ⟨code, hcode, rfl, hbegins, hread⟩ := h.split
  intro rest
  -- The bound of the reader is enough for two steps: the constant and the end mark.
  obtain ⟨bound, hbound⟩ : ∃ bound, (code ++ [0x0b] ++ rest).length = bound + 2 := by
    have hpositive : 0 < code.length := List.length_pos_of_ne_nil hcode
    exact ⟨code.length + rest.length - 1, by simp; omega⟩
  have hsecond : Reads (ConstExpr.readSteps {} (bound + 1)) [0x0b] [.close] := fun _ => rfl
  rw [ConstExpr.read, hbound, List.append_assoc,
    ConstExpr.readSteps_of_begins (bound + 1) (hbegins _), ← List.append_assoc]
  have hboth : Reads (do return constantOf type :: (← ConstExpr.readSteps {} (bound + 1)))
      [0x0b] [constantOf type, .close] := hsecond.last (Reads.pure _)
  exact hread.bind hboth rest

/-- The end mark of a finished body ends it. -/
theorem Typing.step_close {around : Surroundings} {typing : Typing} {frame : Frame}
    (h : typing.finished around.module.types = some frame) (hblock : frame.opener = .block)
    (houter : typing.outer = []) : typing.step around .close = some .done := by
  simp [Typing.step, Typing.closing, h, hblock, houter]

/-- A frame that leaves one value of a type is finished when it has just that value. -/
theorem Typing.finished_push (table : TypeTable) (typing : Typing) {type : ValueType}
    (hresults : typing.inner.results = [type]) (hoperands : typing.inner.operands = []) :
    ∃ frame, (typing.push (some type)).finished table = some frame ∧
      frame.opener = typing.inner.opener := by
  obtain ⟨⟨opener, params, results, operands, dead, unset⟩, outer⟩ := typing
  obtain rfl : results = [type] := hresults
  obtain rfl : operands = [] := hoperands
  refine ⟨⟨opener, params, [type], [], dead, unset⟩, ?_, rfl⟩
  simp [Typing.finished, Typing.popAll, Typing.push, Typing.pop, Typing.popAny,
    table.fits_refl type]

/-- In a dead frame without operands any operand can be taken. -/
theorem Typing.popAll_dead (table : TypeTable) (types : List ValueType) {typing : Typing}
    (hoperands : typing.inner.operands = []) (hdead : typing.inner.dead = true) :
    typing.popAll table types = some typing := by
  have hpop : ∀ type, typing.pop table type = some typing := by
    intro type
    simp [Typing.pop, Typing.popAny, hoperands, hdead]
  rw [Typing.popAll]
  induction types.reverse with
  | nil => rfl
  | cons first rest ih => rw [List.foldlM_cons, hpop first]; exact ih

theorem Typing.finished_die (table : TypeTable) (typing : Typing) :
    typing.die.finished table = some typing.die.inner := by
  have hpop : typing.die.popAll table typing.die.inner.results = some typing.die :=
    Typing.popAll_dead table _ rfl rfl
  simp only [Typing.finished, hpop]
  rfl

/-- A constant leaves a value of its type. -/
theorem ConstantForm.step_constantOf {type : ValueType} {bytes : Bytes}
    (h : ConstantForm type bytes) (around : Surroundings) (typing : Typing) :
    typing.step around (constantOf type) = some (.going (typing.push (some type))) := by
  cases h <;> rfl

/-- A constant and the end mark are all of a body that leaves a value of the type. -/
theorem ConstantForm.run {type : ValueType} {bytes : Bytes} (h : ConstantForm type bytes)
    (around : Surroundings) {typing : Typing} (hblock : typing.inner.opener = .block)
    (hresults : typing.inner.results = [type]) (hoperands : typing.inner.operands = [])
    (houter : typing.outer = []) :
    typing.run around [constantOf type, .close] = true := by
  obtain ⟨frame, hfinished, hopener⟩ :=
    Typing.finished_push around.module.types typing hresults hoperands
  have hclose : (typing.push (some type)).step around .close = some .done :=
    Typing.step_close hfinished (hopener.trans hblock) houter
  simp [Typing.run, h.step_constantOf, hclose]

theorem ConstantForm.leaves {type : ValueType} {bytes : Bytes} (h : ConstantForm type bytes)
    (module : Module) : ConstExpr.leaves module type [constantOf type, .close] = true := by
  have hsteady :
      ([constantOf type, .close] : ConstExpr).all (ConstExpr.isSteady module) = true := by
    cases h <;> rfl
  rw [ConstExpr.leaves, hsteady, Bool.true_and]
  exact h.run _ rfl rfl rfl rfl

/-- A body that is never left has every type. -/
theorem wellTyped_unreachable (module : Module) (type : FunctionType) :
    wellTyped module type [] [.unreachable, .close] = true := by
  have hstep : ∀ (around : Surroundings) (typing : Typing),
      typing.step around .unreachable = some (.going typing.die) := fun _ _ => rfl
  have hclose : ∀ (around : Surroundings) (typing : Typing),
      typing.inner.opener = .block → typing.outer = [] →
        typing.die.step around .close = some .done := fun around typing hblock houter =>
    Typing.step_close (Typing.finished_die around.module.types typing) hblock houter
  simp [wellTyped, Typing.run, hstep, hclose]

/-- A module is the same after a constant. -/
theorem ConstantForm.reads_constant {type : ValueType} {bytes : Bytes}
    (h : ConstantForm type bytes) (module : Module) :
    Reads (module.constant {} type) bytes module := by
  have hfunctions : ConstExpr.functions [constantOf type, .close] = [] := by
    cases h <;> rfl
  refine h.reads.last (Reads.required (h.leaves module) ?_)
  rw [hfunctions]
  exact Reads.pure module

theorem BodyForm.reads {bytes : Bytes} (h : BodyForm bytes) (module : Module)
    (type : FunctionType) : Reads (module.body {} type) bytes () := by
  obtain ⟨size, locals, hsize, hlocals, rfl⟩ := h
  have hlength : (locals ++ [0x00, 0x0b]).length = locals.length + 2 := by simp
  have hshort : locals.length + 2 ≤ Module.maxBodyBytes := by
    have := hlocals.short
    unfold Module.maxBodyBytes
    omega
  -- The reader of locals stops before the code, which is what is left of the body.
  have hgroups : (do
        let groups ← u32
        Module.localGroups module.types groups (Module.maxLocals - type.params.length) :
        Reader (List ValueType)) (locals ++ [0x00, 0x0b]) = some ([], [0x00, 0x0b]) :=
    (hlocals.reads_u32.last (Reads.pure [])) [0x00, 0x0b]
  refine hsize.reads_u32.bind (Reads.required hshort ((Reads.take hlength.symm).last ?_))
  rw [hgroups]
  refine (Reads.expect _).last ?_
  have hcode : Instruction.readAll {} 2 [0x00, 0x0b] = some [.unreachable, .close] := rfl
  change Reads (do
    let instructions ← expect (Instruction.readAll {} 2 [0x00, 0x0b])
    require (wellTyped module type [] instructions)) [] ()
  rw [hcode]
  exact (Reads.expect _).last (Reads.require (wellTyped_unreachable module type))

theorem bodies_reads {types : List FunctionType} {indices : List Nat} {bytes : Bytes}
    (h : Items (fun _ => BodyForm) indices bytes) (module : Module)
    (hcount : types.length = indices.length) : Reads (module.bodies {} types) bytes () := by
  induction h generalizing types with
  | nil =>
      obtain rfl : types = [] := List.length_eq_zero_iff.1 hcount
      exact Reads.pure ()
  | @cons index rest bytes later head tail ih =>
      obtain ⟨first, others, rfl⟩ := List.exists_cons_of_length_eq_add_one hcount
      exact (head.reads module first).bind (ih (by simpa using hcount))

end Wasm
end ContractAdmission
