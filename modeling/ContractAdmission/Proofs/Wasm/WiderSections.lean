import ContractAdmission.Proofs.Wasm.WiderInstructions

/-!
# Sections under more features

What an engine with fewer features reads from a section, an engine with more features reads
from it too.  The types of tables and memories are read alike by all engines, and those that
are admitted stay admitted; the number of memories that a module may have does not get smaller;
and what has instructions is only accepted with instructions that are read alike.

* `Module.constant_keeps` — constant expressions, wherever they stand.
* `Module.body_keeps` — bodies of functions.
* `Module.sectionContents_keeps` — every section, one case for each kind.
-/

namespace ContractAdmission
namespace Wasm

open Reader

variable {engine wider : Engine} (h : engine.Within wider)

include h

/-! ### What an engine admits -/

namespace Engine.Within

theorem maxMemories_le : maxMemories engine ≤ maxMemories wider := by
  unfold maxMemories
  cases hfew : engine.multiMemory with
  | true => simp [h.multiMemory hfew]
  | false => cases wider.multiMemory <;> decide

theorem withinLimits {module : Module} (hlimits : module.withinLimits engine = true) :
    module.withinLimits wider = true := by
  have hmemories := h.maxMemories_le
  unfold Module.withinLimits at hlimits ⊢
  simp only [Bool.and_eq_true, decide_eq_true_eq] at hlimits ⊢
  obtain ⟨⟨⟨⟨hfunctions, htables⟩, hmany⟩, hglobals⟩, htags⟩ := hlimits
  exact ⟨⟨⟨⟨hfunctions, htables⟩, Nat.le_trans hmany hmemories⟩, hglobals⟩, htags⟩

theorem admits_table {type : TableType} (hadmitted : type.admitted engine = true) :
    type.admitted wider = true := by
  have hwide := h.memory64
  unfold TableType.admitted at hadmitted ⊢
  simp only [Bool.and_eq_true, Bool.or_eq_true] at hadmitted ⊢
  exact ⟨hadmitted.1, hadmitted.2.imp_right hwide⟩

theorem admits_memory {type : MemoryType} (hadmitted : type.admitted engine = true) :
    type.admitted wider = true := by
  have hwide := h.memory64
  have hpages := h.customPageSizes
  unfold MemoryType.admitted at hadmitted ⊢
  simp only [Bool.and_eq_true, Bool.or_eq_true] at hadmitted ⊢
  obtain ⟨⟨hform, hindex⟩, hpage⟩ := hadmitted
  exact ⟨⟨hform, hindex.imp_right hwide⟩, hpage.imp_right hpages⟩

end Engine.Within

/-! ### Constant expressions -/

/-- Narrow instructions up to the end mark are read alike. -/
theorem ConstExpr.readSteps_keeps (bound : Nat) :
    Keeps (readSteps engine bound) (readSteps wider bound)
      fun expr => ∀ instruction ∈ expr, instruction.IsNarrow := by
  induction bound with
  | zero => exact Keeps.refl _
  | succ bound ih =>
      have hstep : Keeps
          (Instruction.read engine >>= fun first => readSteps engine bound >>= fun later =>
            pure (first :: later))
          (Instruction.read wider >>= fun first => readSteps wider bound >>= fun later =>
            pure (first :: later))
          fun expr => ∀ instruction ∈ expr, instruction.IsNarrow := by
        refine (Instruction.read_keeps h).bind_of ?_ fun first => ih.bind_of ?_ fun _ => Keeps.refl _
        · intro first bytes expr rest hread hnarrow
          obtain ⟨later, _, -, hvalue⟩ := bind_eq_some_iff.1 hread
          cases hvalue
          exact hnarrow first (List.mem_cons_self ..)
        · intro later bytes expr rest hread hnarrow
          cases hread
          exact fun instruction hmem => hnarrow instruction (List.mem_cons_of_mem _ hmem)
      intro bytes expr rest hread hnarrow
      unfold readSteps at hread ⊢
      split at hread
      · exact hread
      · split at hread
        · rename_i hconstant
          rw [if_pos hconstant]
          exact hstep bytes expr rest hread hnarrow
        · cases hread

namespace Module

variable (module : Module)

theorem tableType_keeps : Keeps (module.tableType engine) (module.tableType wider) :=
  Keeps.after fun _ => (Keeps.require h.admits_table).bind fun _ => Keeps.refl _

theorem memoryType_keeps : Keeps (memoryType engine) (memoryType wider) :=
  Keeps.after fun _ => (Keeps.require h.admits_memory).bind fun _ => Keeps.refl _

theorem externType_keeps : Keeps (module.externType engine) (module.externType wider) := by
  refine Keeps.after fun kind => ?_
  split
  case h_2 => exact (tableType_keeps h module).bind fun _ => Keeps.refl _
  case h_3 => exact (memoryType_keeps h).bind fun _ => Keeps.refl _
  all_goals exact Keeps.refl _

theorem importSection_keeps : Keeps (module.importSection engine) (module.importSection wider) := by
  have hdecl : Keeps (module.importDecl engine) (module.importDecl wider) :=
    Keeps.after fun _ => Keeps.after fun _ => (externType_keeps h module).bind fun _ => Keeps.refl _
  exact (hdecl.vector (Nat.le_refl _)).bind fun _ =>
    (Keeps.require h.withinLimits).bind fun _ => Keeps.refl _

theorem functionSection_keeps :
    Keeps (module.functionSection engine) (module.functionSection wider) :=
  Keeps.after fun _ => (Keeps.require h.withinLimits).bind fun _ => Keeps.refl _

/-- A constant expression that leaves a value has a type, so it is read alike. -/
theorem constant_keeps (type : ValueType) :
    Keeps (module.constant engine type) (module.constant wider type) := by
  have hexpr : Keeps (ConstExpr.read engine) (ConstExpr.read wider)
      fun expr => ∀ instruction ∈ expr, instruction.IsNarrow := fun bytes =>
    ConstExpr.readSteps_keeps h bytes.length bytes
  refine hexpr.bind_of ?_ fun _ => Keeps.refl _
  intro expr bytes next rest hread _
  obtain ⟨hleaves, -⟩ := require_bind_eq_some_iff.1 hread
  unfold ConstExpr.leaves at hleaves
  exact isNarrow_of_wellTyped (Bool.and_eq_true_iff.1 hleaves).2

theorem tableDef_keeps : Keeps (module.tableDef engine) (module.tableDef wider) := by
  have hinitial : Keeps
      (module.tableType engine >>= fun type =>
        module.constant engine (.reference type.element) >>= fun next =>
          pure { next with tables := next.tables ++ [type] })
      (module.tableType wider >>= fun type =>
        module.constant wider (.reference type.element) >>= fun next =>
          pure { next with tables := next.tables ++ [type] }) :=
    (tableType_keeps h module).bind fun _ => (constant_keeps h module _).bind fun _ =>
      Keeps.refl _
  have hempty : Keeps
      (module.tableType engine >>= fun type => require type.element.nullable >>= fun _ =>
        pure { module with tables := module.tables ++ [type] })
      (module.tableType wider >>= fun type => require type.element.nullable >>= fun _ =>
        pure { module with tables := module.tables ++ [type] }) :=
    (tableType_keeps h module).bind fun _ => Keeps.refl _
  intro bytes next rest hread
  unfold tableDef at hread ⊢
  split at hread
  · exact hinitial _ next rest hread
  · exact hempty _ next rest hread

theorem tableDefs_keeps (count : Nat) :
    Keeps (tableDefs engine count module) (tableDefs wider count module) := by
  induction count generalizing module with
  | zero => exact Keeps.refl _
  | succ count ih => exact (tableDef_keeps h module).bind ih

theorem tableSection_keeps : Keeps (module.tableSection engine) (module.tableSection wider) :=
  Keeps.after fun count => Keeps.after fun _ => (tableDefs_keeps h module count).bind fun _ =>
    (Keeps.require h.withinLimits).bind fun _ => Keeps.refl _

theorem memorySection_keeps : Keeps (module.memorySection engine) (module.memorySection wider) :=
  ((memoryType_keeps h).vector h.maxMemories_le).bind fun _ =>
    (Keeps.require h.withinLimits).bind fun _ => Keeps.refl _

theorem tagSection_keeps : Keeps (module.tagSection engine) (module.tagSection wider) :=
  Keeps.after fun _ => (Keeps.require h.withinLimits).bind fun _ => Keeps.refl _

theorem globalDefs_keeps (count : Nat) :
    Keeps (globalDefs engine count module) (globalDefs wider count module) := by
  induction count generalizing module with
  | zero => exact Keeps.refl _
  | succ count ih =>
      exact Keeps.after fun type => (constant_keeps h module _).bind fun next => ih _

theorem globalSection_keeps : Keeps (module.globalSection engine) (module.globalSection wider) :=
  Keeps.after fun count => Keeps.after fun _ => (globalDefs_keeps h module count).bind fun _ =>
    (Keeps.require h.withinLimits).bind fun _ => Keeps.refl _

theorem elementPlace_keeps (index : Nat) :
    Keeps (module.elementPlace engine index) (module.elementPlace wider index) :=
  Keeps.after fun _ => (constant_keeps h module _).bind fun _ => Keeps.refl _

theorem constants_keeps (type : ValueType) (count : Nat) :
    Keeps (constants engine type count module) (constants wider type count module) := by
  induction count generalizing module with
  | zero => exact Keeps.refl _
  | succ count ih => exact (constant_keeps h module type).bind ih

theorem elementItems_keeps (asExpressions : Bool) (element : ReferenceType) :
    Keeps (elementItems engine asExpressions element module)
      (elementItems wider asExpressions element module) := by
  unfold elementItems
  split
  · exact Keeps.after fun count => Keeps.after fun _ => constants_keeps h module _ count
  · exact Keeps.refl _

theorem elementTarget_keeps (placed : Bool) (index : Nat) :
    Keeps (elementTarget engine placed index module)
      (elementTarget wider placed index module) := by
  unfold elementTarget
  split
  · exact (elementPlace_keeps h module index).bind fun _ => Keeps.refl _
  · exact Keeps.refl _

theorem elementSegment_keeps :
    Keeps (module.elementSegment engine) (module.elementSegment wider) :=
  Keeps.after fun _ => Keeps.after fun _ => Keeps.after fun table =>
    (elementTarget_keeps h module _ table).bind fun target => Keeps.after fun element =>
      Keeps.after fun _ => (elementItems_keeps h target.1 _ element).bind fun _ => Keeps.refl _

theorem elementSegments_keeps (count : Nat) :
    Keeps (elementSegments engine count module) (elementSegments wider count module) := by
  induction count generalizing module with
  | zero => exact Keeps.refl _
  | succ count ih => exact (elementSegment_keeps h module).bind ih

theorem elementSection_keeps :
    Keeps (module.elementSection engine) (module.elementSection wider) :=
  Keeps.after fun count => Keeps.after fun _ => elementSegments_keeps h module count

theorem dataPlace_keeps (index : Nat) :
    Keeps (module.dataPlace engine index) (module.dataPlace wider index) :=
  Keeps.after fun _ => (constant_keeps h module _).bind fun _ => Keeps.refl _

theorem dataTarget_keeps (form : Nat) :
    Keeps (module.dataTarget engine form) (module.dataTarget wider form) := by
  unfold dataTarget
  split
  · exact dataPlace_keeps h module 0
  · exact Keeps.refl _
  · exact Keeps.after fun index => dataPlace_keeps h module index
  · exact Keeps.refl _

theorem dataSection_keeps : Keeps (module.dataSection engine) (module.dataSection wider) := by
  have hsegment : Keeps (module.dataSegment engine) (module.dataSegment wider) :=
    Keeps.after fun form => (dataTarget_keeps h module form).bind fun _ => Keeps.refl _
  exact (hsegment.vector (Nat.le_refl _)).bind fun _ => Keeps.refl _

/-- The instructions of a body have a type, so they are read alike. -/
theorem body_keeps (type : FunctionType) :
    Keeps (module.body engine type) (module.body wider type) := by
  refine Keeps.after fun size => Keeps.after fun _ => Keeps.after fun bytes => Keeps.after ?_
  rintro ⟨locals, code⟩
  have hcode : Keeps (expect (Instruction.readAll engine code.length code))
      (expect (Instruction.readAll wider code.length code))
      fun instructions => ∀ instruction ∈ instructions, instruction.IsNarrow :=
    Keeps.expect fun instructions hread hnarrow => Instruction.readAll_keeps h hread hnarrow
  refine hcode.bind_of ?_ fun _ => Keeps.refl _
  intro instructions rest _ later hread _
  exact isNarrow_of_wellTyped (require_eq_some_iff.1 hread).1

theorem bodies_keeps (types : List FunctionType) :
    Keeps (module.bodies engine types) (module.bodies wider types) := by
  induction types with
  | nil => exact Keeps.refl _
  | cons type rest ih => exact (body_keeps h module type).bind fun _ => ih

theorem codeSection_keeps : Keeps (module.codeSection engine) (module.codeSection wider) :=
  Keeps.after fun _ => Keeps.after fun _ => (bodies_keeps h module _).bind fun _ => Keeps.refl _

/-- **What is read from a section is read from it with more features too.** -/
theorem sectionContents_keeps (id : SectionId) :
    Keeps (module.sectionContents engine id) (module.sectionContents wider id) := by
  cases id with
  | imports => exact importSection_keeps h module
  | functions => exact functionSection_keeps h module
  | tables => exact tableSection_keeps h module
  | memories => exact memorySection_keeps h module
  | tags => exact tagSection_keeps h module
  | globals => exact globalSection_keeps h module
  | elements => exact elementSection_keeps h module
  | code => exact codeSection_keeps h module
  | data => exact dataSection_keeps h module
  | custom | types | exports | start | dataCount => exact Keeps.refl _

end Module
end Wasm
end ContractAdmission
