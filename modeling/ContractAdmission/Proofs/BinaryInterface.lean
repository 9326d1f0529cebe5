import ContractAdmission.Contract
import ContractAdmission.Proofs.Wasm.Assembly
import ContractAdmission.Proofs.Wasm.Realization

/-!
# Interfaces of binaries

A binary that encodes a blueprint has the interface that the blueprint lists: the same
names and kinds in the same order.  The verdict on the bytes is then the verdict on the
interface, whatever is asked for.  Where a tag is imported or exported there is no
interface, although the binary is well formed.
-/

namespace ContractAdmission
namespace Wasm

/-- An import is listed under its names and its kind, unless it is a tag. -/
theorem ImportDecl.listed?_eq_some {decl : ImportDecl} (h : decl.type.word ≠ "tag") :
    decl.listed? = some ⟨decl.moduleName, decl.name, decl.type.word⟩ := by
  obtain ⟨moduleName, name, type⟩ := decl
  cases type with
  | tag type => exact absurd rfl h
  | _ => rfl

theorem ImportDecl.listed?_eq_none_iff {decl : ImportDecl} :
    decl.listed? = none ↔ decl.type.word = "tag" := by
  obtain ⟨moduleName, name, type⟩ := decl
  cases type <;> simp [ImportDecl.listed?, ExternType.kind?, ExternType.word]

/-- An export is listed under its name and its kind, unless it is a tag. -/
theorem ExportDecl.listed?_eq_some {decl : ExportDecl} (h : decl.target.word ≠ "tag") :
    decl.listed? = some ⟨decl.name, decl.target.word⟩ := by
  obtain ⟨name, target⟩ := decl
  cases target with
  | tag index => exact absurd rfl h
  | _ => rfl

theorem ExportDecl.listed?_eq_none_iff {decl : ExportDecl} :
    decl.listed? = none ↔ decl.target.word = "tag" := by
  obtain ⟨name, target⟩ := decl
  cases target <;> simp [ExportDecl.listed?, ExternIndex.kind?, ExternIndex.word]

/-- Some import or export of a module is a tag. -/
def Module.HasTag (module : Module) : Prop :=
  (∃ decl ∈ module.imports, decl.type.word = "tag") ∨
    ∃ decl ∈ module.exports, decl.target.word = "tag"

/-- A module has no interface exactly when it imports or exports a tag. -/
theorem Module.interface?_eq_none_iff {module : Module} :
    module.interface? = none ↔ module.HasTag := by
  have himports : module.imports.mapM (·.listed?) = none ↔
      ∃ decl ∈ module.imports, decl.type.word = "tag" := by
    simp only [mapM_eq_none_iff, ImportDecl.listed?_eq_none_iff]
  have hexports : module.exports.mapM (·.listed?) = none ↔
      ∃ decl ∈ module.exports, decl.target.word = "tag" := by
    simp only [mapM_eq_none_iff, ExportDecl.listed?_eq_none_iff]
  rw [HasTag, ← himports, ← hexports, interface?]
  cases module.exports.mapM (·.listed?) with
  | none => simp
  | some exports => cases module.imports.mapM (·.listed?) <;> simp

namespace Blueprint

variable {plan : Blueprint} {module : Module}

/-- A module with the imports and exports of a blueprint without tags has the interface
that the blueprint lists. -/
theorem interface?_of_not_hasTag (himports : module.imports = plan.imports)
    (hexports : module.exports = plan.exports) (h : ¬ plan.HasTag) :
    module.interface? = some plan.interface := by
  rw [HasTag, not_or] at h
  obtain ⟨himported, hexported⟩ := h
  have hlistedExports : plan.exports.mapM (·.listed?) = some plan.interface.exports :=
    mapM_eq_some_map fun decl hdecl =>
      ExportDecl.listed?_eq_some fun htag => hexported ⟨decl, hdecl, htag⟩
  have hlistedImports : plan.imports.mapM (·.listed?) = some plan.interface.imports :=
    mapM_eq_some_map fun decl hdecl =>
      ImportDecl.listed?_eq_some fun htag => himported ⟨decl, hdecl, htag⟩
  simp [Module.interface?, himports, hexports, hlistedExports, hlistedImports]

theorem interface?_of_hasTag (himports : module.imports = plan.imports)
    (hexports : module.exports = plan.exports) (h : plan.HasTag) :
    module.interface? = none := by
  rw [Module.interface?_eq_none_iff, Module.HasTag, himports, hexports]
  exact h

namespace Encoding

variable (encoding : plan.Encoding)

/-- The bytes of an encoding begin as a binary does. -/
theorem magic_isPrefixOf_bytes : magic.isPrefixOf encoding.bytes = true := rfl

theorem compile_of_not_hasTag (h : plan.Sized) (htag : ¬ plan.HasTag) :
    compile {} encoding.bytes = .ok plan.interface := by
  obtain ⟨module, hdecoded, himports, hexports⟩ := encoding.decode_bytes h
  rw [compile, if_pos encoding.magic_isPrefixOf_bytes, hdecoded]
  simp only [interface?_of_not_hasTag himports hexports htag]

theorem compile_of_hasTag (h : plan.Sized) (htag : plan.HasTag) :
    compile {} encoding.bytes = .error .unsupportedExtern := by
  obtain ⟨module, hdecoded, himports, hexports⟩ := encoding.decode_bytes h
  rw [compile, if_pos encoding.magic_isPrefixOf_bytes, hdecoded]
  simp only [interface?_of_hasTag himports hexports htag]

end Encoding
end Blueprint
end Wasm

/-- The verdict on bytes that have an interface is the verdict on the interface. -/
theorem validate_of_compile {bytes : Bytes} {iface : Interface} {engine : Wasm.Engine}
    (h : Wasm.compile engine bytes = .ok iface) (request : Request) :
    validate bytes request engine =
      ⟨Wasm.compiledRecord iface :: (assess iface request).records,
        (assess iface request).value.mapError .lookup⟩ := by
  rw [validate, h]

/-- **Bytes have the verdict of the interface that they encode.**

An encoding of a blueprint without tags is compiled to the interface that the blueprint
lists, and to every request the bytes have the verdict or error of that interface, with
one more record.  With a tag the bytes are refused.  Every interface within the limits of
the engine, tags included, is listed by a blueprint that can be encoded. -/
theorem encoding_agrees_with_interface :
    (∀ (plan : Wasm.Blueprint) (encoding : plan.Encoding), plan.Sized →
      (¬ plan.HasTag →
        Wasm.compile {} encoding.bytes = .ok plan.interface ∧
          ∀ request, validate encoding.bytes request =
            ⟨Wasm.compiledRecord plan.interface :: (assess plan.interface request).records,
              (assess plan.interface request).value.mapError .lookup⟩) ∧
      (plan.HasTag → Wasm.compile {} encoding.bytes = .error .unsupportedExtern)) ∧
    (∀ iface : Interface, iface.Encodable → ∃ plan : Wasm.Blueprint,
      Nonempty plan.Encoding ∧ plan.Sized ∧ plan.interface = iface) := by
  constructor
  · intro plan encoding hsized
    constructor
    · intro htag
      have hcompiled := encoding.compile_of_not_hasTag hsized htag
      exact ⟨hcompiled, validate_of_compile hcompiled⟩
    · exact encoding.compile_of_hasTag hsized
  · intro iface h
    exact ⟨iface.blueprint, Interface.nonempty_encoding h, Interface.sized_blueprint h,
      Interface.interface_blueprint h⟩

namespace Wasm

/-- A blueprint with an imported function, and a memory that is exported with it. -/
def smallBlueprint : Blueprint where
  types := [⟨[], []⟩]
  imports := [⟨"env", "abort", .function 0⟩]
  memories := [⟨⟨0, none⟩, false, false, none⟩]
  exports := [⟨"memory", .memory 0⟩, ⟨"go", .function 0⟩]

/-- An encoding of it in which the numbers of items take five bytes each. -/
def smallEncoding : smallBlueprint.Encoding where
  types := [0x01, 0x08, 0x81, 0x80, 0x80, 0x80, 0x00, 0x60, 0x00, 0x00]
  imports := [0x02, 0x11, 0x81, 0x80, 0x80, 0x80, 0x00, 0x03, 0x65, 0x6e, 0x76,
    0x05, 0x61, 0x62, 0x6f, 0x72, 0x74, 0x00, 0x00]
  functions := []
  tables := []
  memories := [0x05, 0x07, 0x81, 0x80, 0x80, 0x80, 0x00, 0x00, 0x00]
  tags := []
  globals := []
  exports := [0x07, 0x13, 0x82, 0x80, 0x80, 0x80, 0x00, 0x06, 0x6d, 0x65, 0x6d, 0x6f, 0x72,
    0x79, 0x02, 0x00, 0x02, 0x67, 0x6f, 0x00, 0x00]
  code := []
  typesForm := by
    have hcounted : Counted SignatureForm smallBlueprint.types
        [0x81, 0x80, 0x80, 0x80, 0x00, 0x60, 0x00, 0x00] :=
      ⟨_, _, U32.padded (by decide), .cons SignatureForm.plain .nil, rfl⟩
    exact .there hcounted (U32.small (by decide))
  importsForm := by
    have hdecl : ImportForm smallBlueprint.types ⟨"env", "abort", .function 0⟩
        [0x03, 0x65, 0x6e, 0x76, 0x05, 0x61, 0x62, 0x6f, 0x72, 0x74, 0x00, 0x00] :=
      ⟨_, _, _, NameForm.small (by decide), NameForm.small (by decide),
        .function IndexForm.plain, rfl⟩
    have hcounted : Counted (ImportForm smallBlueprint.types) smallBlueprint.imports
        [0x81, 0x80, 0x80, 0x80, 0x00, 0x03, 0x65, 0x6e, 0x76,
          0x05, 0x61, 0x62, 0x6f, 0x72, 0x74, 0x00, 0x00] :=
      ⟨_, _, U32.padded (by decide), .cons hdecl .nil, rfl⟩
    exact .there hcounted (U32.small (by decide))
  functionsForm := .leftOut
  tablesForm := .leftOut
  memoriesForm := by
    have hcounted : Counted MemoryForm smallBlueprint.memories
        [0x81, 0x80, 0x80, 0x80, 0x00, 0x00, 0x00] :=
      ⟨_, _, U32.padded (by decide), .cons MemoryForm.plain .nil, rfl⟩
    exact .there hcounted (U32.small (by decide))
  tagsForm := .leftOut
  globalsForm := .leftOut
  exportsForm := by
    have hmemory : ExportForm ⟨"memory", .memory 0⟩
        [0x06, 0x6d, 0x65, 0x6d, 0x6f, 0x72, 0x79, 0x02, 0x00] :=
      ⟨_, _, NameForm.small (by decide), .memory U32.zero, rfl⟩
    have hfunction : ExportForm ⟨"go", .function 0⟩ [0x02, 0x67, 0x6f, 0x00, 0x00] :=
      ⟨_, _, NameForm.small (by decide), .function U32.zero, rfl⟩
    have hcounted : Counted ExportForm smallBlueprint.exports
        [0x82, 0x80, 0x80, 0x80, 0x00, 0x06, 0x6d, 0x65, 0x6d, 0x6f, 0x72, 0x79, 0x02, 0x00,
          0x02, 0x67, 0x6f, 0x00, 0x00] :=
      ⟨_, _, U32.padded (by decide), .cons hmemory (.cons hfunction .nil), rfl⟩
    exact .there hcounted (U32.small (by decide))
  codeForm := .leftOut

theorem smallBlueprint_sized : smallBlueprint.Sized where
  distinctNames := by decide
  targetsThere := by simp [smallBlueprint, Blueprint.Has, Blueprint.allFunctions,
    Blueprint.allMemories, ExternType.function?]
  tagsLeaveNothing := by decide
  tablesSized := by simp [smallBlueprint, Blueprint.allTables, ExternType.table?]
  memoriesSized := by
    intro type htype
    obtain rfl : type = ⟨⟨0, none⟩, false, false, none⟩ := by
      simpa [smallBlueprint, Blueprint.allMemories, ExternType.memory?] using htype
    exact ⟨by simp, by simp, by simp, by simp⟩
  importNames := by decide
  exportNames := by decide
  arities := by decide
  typeCount := by decide
  importCount := by decide
  exportCount := by decide
  functionCount := by decide
  tableCount := by decide
  memoryCount := by decide
  globalCount := by decide
  tagCount := by decide

end Wasm

/-- The bytes of the small encoding have the interface that one reads off its blueprint. -/
theorem encoding_agrees_with_interface_small :
    Wasm.smallBlueprint.Sized ∧ ¬ Wasm.smallBlueprint.HasTag ∧
      Wasm.compile {} Wasm.smallEncoding.bytes =
        .ok ⟨[⟨"memory", "memory"⟩, ⟨"go", "function"⟩], [⟨"env", "abort", "function"⟩]⟩ := by
  have hsized := Wasm.smallBlueprint_sized
  have htag : ¬ Wasm.smallBlueprint.HasTag := by
    simp [Wasm.Blueprint.HasTag, Wasm.smallBlueprint, Wasm.ExternType.word, Wasm.ExternIndex.word]
  have hall := encoding_agrees_with_interface.1 Wasm.smallBlueprint Wasm.smallEncoding hsized
  exact ⟨hsized, htag, (hall.1 htag).1⟩

end ContractAdmission
