import ContractAdmission.Proofs.Truncation
import ContractAdmission.Proofs.Wasm.Framing

/-!
# What accepted binaries are

Bytes that have an interface are a header and framed sections in the standard order, and
the interface is what stands in two of these sections.  All other bytes are refused with
an error of their own, however they are malformed.

* `Wasm.WellFramed`, `Interface.ReadFrom` — what is true of accepted bytes and of their
  interface, with no reader in it.
* `accepted_well_framed` — every accepted binary is of this kind, and every other one is
  refused.
-/

namespace ContractAdmission
namespace Wasm

/-- Bytes that are a header and framed sections.  Those that are not custom ones stand in the
standard order, each once at most. -/
structure WellFramed (bytes : Bytes) (parts : List Section) : Prop where
  framed : ∃ body, bytes = [0x00, 0x61, 0x73, 0x6d, 0x01, 0x00, 0x00, 0x00] ++ body ∧
    Items FrameForm (parts.map (·.framed)) body
  ordered : ((parts.map (·.id)).filter (· ≠ .custom)).Sublist
    [.types, .imports, .functions, .tables, .memories, .tags, .globals, .exports,
      .start, .elements, .dataCount, .code, .data]

end Wasm

/-- An interface that sections list: its entries stand there, in their order, the exports
under distinct names, and every kind is one of four words. -/
structure Interface.ReadFrom (iface : Interface) (parts : List Wasm.Section) : Prop where
  imports : Wasm.Section.Lists Wasm.ImportEntryForm .imports parts iface.imports
  exports : Wasm.Section.Lists Wasm.ExportEntryForm .exports parts iface.exports
  distinct : iface.exportNames.Nodup
  importKinds : ∀ entry ∈ iface.imports, entry.kind ∈ ["function", "memory", "global", "table"]
  exportKinds : ∀ entry ∈ iface.exports, entry.kind ∈ ["function", "memory", "global", "table"]

theorem ExternKind.label_mem (kind : ExternKind) :
    kind.label ∈ ["function", "memory", "global", "table"] := by
  cases kind <;> decide

namespace Wasm

variable {engine : Engine} {bytes : Bytes} {module : Module}

/-- The sections of a binary that is decoded are well framed. -/
theorem wellFramed_of_run {parts : List Section} {body : Bytes}
    (hbody : Items SectionForm parts body)
    (hrun : parts.foldlM (Module.addSection engine) {} = some module) :
    WellFramed (header ++ body) parts where
  framed := ⟨body, rfl, items_sectionForm_iff.1 hbody⟩
  ordered := Module.order_of_run hrun

/-- The interface of a module is what the sections list from which the module was made. -/
theorem readFrom_of_run {parts : List Section} {iface : Interface}
    (hrun : parts.foldlM (Module.addSection engine) {} = some module)
    (hiface : module.interface? = some iface) : iface.ReadFrom parts := by
  obtain ⟨hexports, himports⟩ := Module.lists_of_interface? hiface
  refine ⟨Module.lists_imports hrun himports, Module.lists_exports hrun hexports, ?_, ?_, ?_⟩
  · -- An interface names its exports as the module does.
    have hnames : iface.exportNames = module.exports.map (·.name) := by
      refine map_eq_map_of_mapM hexports fun decl entry hlisted => ?_
      obtain ⟨kind, -, rfl⟩ := Option.map_eq_some_iff.1 hlisted
      rfl
    rw [hnames]
    exact Module.nodup_exports hrun
  · intro entry hentry
    obtain ⟨decl, -, hlisted⟩ := exists_of_mem_of_mapM himports hentry
    obtain ⟨kind, -, rfl⟩ := Option.map_eq_some_iff.1 hlisted
    exact kind.label_mem
  · intro entry hentry
    obtain ⟨decl, -, hlisted⟩ := exists_of_mem_of_mapM hexports hentry
    obtain ⟨kind, -, rfl⟩ := Option.map_eq_some_iff.1 hlisted
    exact kind.label_mem

end Wasm

/-- Bytes that are refused have no verdict, whatever is asked for. -/
theorem validate_of_compile_error {bytes : Bytes} {engine : Wasm.Engine} {error : CompileError}
    (h : Wasm.compile engine bytes = .error error) (request : Request) :
    validate bytes request engine = .pure (.error (.contract (.notCompiled error))) := by
  rw [validate, h]

/-- **Accepted binaries are well framed, and their interfaces are clean.**

Where bytes have an interface, they are the header of eight bytes and sections whose sizes
cover the rest, in the standard order and each once at most; the imports and exports are
entry by entry what the sections of imports and exports stand for, and none where there is
no such section; the names of the exports are distinct and the kinds are the four known
ones.  All other bytes are refused, with an error of the decoder and without a record. -/
theorem accepted_well_framed (engine : Wasm.Engine) (bytes : Bytes) :
    (∀ iface, Wasm.compile engine bytes = .ok iface →
      ∃ parts, Wasm.WellFramed bytes parts ∧ iface.ReadFrom parts) ∧
    ((∀ iface, Wasm.compile engine bytes ≠ .ok iface) →
      ∃ error, Wasm.compile engine bytes = .error error ∧
        ∀ request, validate bytes request engine =
          .pure (.error (.contract (.notCompiled error)))) := by
  constructor
  · intro iface hcompile
    obtain ⟨module, hdecode, hiface⟩ := Wasm.exists_module_of_compile hcompile
    obtain ⟨body, parts, rfl, hbody, hrun, -⟩ := Wasm.Module.decode_eq_some_iff.1 hdecode
    exact ⟨parts, Wasm.wellFramed_of_run hbody hrun, Wasm.readFrom_of_run hrun hiface⟩
  · intro hrefused
    cases hcompile : Wasm.compile engine bytes with
    | error error => exact ⟨error, rfl, validate_of_compile_error hcompile⟩
    | ok iface => exact absurd hcompile (hrefused iface)

/-- The least contract is accepted and so well framed, and with a section behind it that ends
before its size it is refused. -/
theorem accepted_well_framed_least :
    Wasm.compile {} (Host.cosmwasm1.leastContract []) =
        .ok (Host.cosmwasm1.leastInterface []) ∧
      (∃ parts, Wasm.WellFramed (Host.cosmwasm1.leastContract []) parts ∧
        (Host.cosmwasm1.leastInterface []).ReadFrom parts) ∧
      ∃ error, Wasm.compile {} (Host.cosmwasm1.leastContract [] ++ [0x00, 0x05, 0x00]) =
        .error error := by
  have hcompile : Wasm.compile {} (Host.cosmwasm1.leastContract []) =
      .ok (Host.cosmwasm1.leastInterface []) := by decide +kernel
  have hrefused : ∀ iface, Wasm.compile {}
      (Host.cosmwasm1.leastContract [] ++ [0x00, 0x05, 0x00]) ≠ .ok iface := by
    have hmalformed : Wasm.compile {}
        (Host.cosmwasm1.leastContract [] ++ [0x00, 0x05, 0x00]) = .error .malformed := by
      decide +kernel
    intro iface hiface
    rw [hmalformed] at hiface
    cases hiface
  obtain ⟨error, herror, -⟩ := (accepted_well_framed {} _).2 hrefused
  exact ⟨hcompile, (accepted_well_framed {} _).1 _ hcompile, error, herror⟩

end ContractAdmission
