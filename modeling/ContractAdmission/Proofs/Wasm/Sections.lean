import ContractAdmission.Proofs.Wasm.Bodies

/-!
# Reading the sections of a blueprint

What every section adds to a module.  A section is read in the light of the types that
are declared before it; nothing else that a module has keeps it from being read, as
long as the index spaces stay within the limits of the engine.
-/

namespace ContractAdmission
namespace Wasm

open Reader

variable {types : List FunctionType} {bytes : Bytes} (module : Module)

theorem typeSection_reads (h : Counted SignatureForm types bytes)
    (harities : ∀ type ∈ types, type.params.length ≤ 1000 ∧ type.results.length ≤ 1000)
    (hcount : types.length ≤ 1000000) :
    ∃ table : TypeTable, table.types = types.map FunctionType.declared ∧
      ∀ module : Module, module.types = {} →
        Reads module.typeSection bytes { module with types := table } := by
  obtain ⟨count, items, hnumber, hitems, rfl⟩ := h
  obtain ⟨table, hreads, htypes⟩ :=
    typeGroups_reads hitems {} harities (by simpa using hcount)
  refine ⟨table, by simpa using htypes, ?_⟩
  intro module hnone
  refine hnumber.reads_u32.bind (Reads.required hcount ?_)
  rw [hnone]
  exact hreads.last (Reads.pure _)

theorem importSection_reads {decls : List ImportDecl} (h : Counted (ImportForm types) decls bytes)
    (hknows : module.types.Knows types) (hcount : decls.length ≤ 1000000)
    (hnames : ∀ decl ∈ decls,
      decl.moduleName.utf8ByteSize ≤ 100000 ∧ decl.name.utf8ByteSize ≤ 100000)
    (hsized : ∀ decl ∈ decls, decl.type.Sized)
    (hlimits : (module.addImports decls).withinLimits {} = true) :
    Reads (module.importSection {}) bytes (module.addImports decls) := by
  have hdecls : Reads (vector maxEntities (module.importDecl {})) bytes decls :=
    h.reads hcount fun decl hdecl part form =>
      form.reads hknows (hnames decl hdecl).1 (hnames decl hdecl).2 (hsized decl hdecl)
  exact hdecls.last (Reads.required hlimits (Reads.pure _))

/-- The module with functions that have bodies still to come. -/
def Module.addFunctions (module : Module) (indices : List Nat) : Module :=
  { module with
    functions := module.functions ++ indices
    bodiless := indices.filterMap module.types.function? }

theorem functionSection_reads {indices : List Nat}
    (h : Counted (IndexForm types) indices bytes) (hknows : module.types.Knows types)
    (hcount : indices.length ≤ 1000000)
    (hlimits : (module.addFunctions indices).withinLimits {} = true) :
    Reads (module.functionSection {}) bytes (module.addFunctions indices) := by
  have hindices : Reads (vector maxEntities module.functionIndexType) bytes indices :=
    h.reads hcount fun index _ part form => form.reads hknows
  exact hindices.last (Reads.required hlimits (Reads.pure _))

theorem ReferenceForm.nullable {type : ReferenceType} (h : ReferenceForm type bytes) :
    type.nullable = true := by
  obtain ⟨kind⟩ := h
  rfl

/-- A type of references does not begin as a table with an expression does. -/
theorem ReferenceForm.ne_marker {type : ReferenceType} (h : ReferenceForm type bytes)
    (rest later : Bytes) : bytes ++ rest ≠ 0x40 :: later := by
  obtain ⟨kind⟩ := h
  cases kind <;> simp [HeapKind.code]

theorem TableForm.reads_def {type : TableType} (h : TableForm type bytes) (hsized : type.Sized) :
    Reads (module.tableDef {}) bytes { module with tables := module.tables ++ [type] } := by
  have htype : Reads (module.tableType {}) bytes type := h.reads hsized module
  obtain ⟨element, limits, helement, -, rfl⟩ := h
  have hplain : Reads (do
        let type ← module.tableType {}
        require type.element.nullable
        return { module with tables := module.tables ++ [type] })
      (element ++ limitFlags type.limits type.shared type.index64 :: limits)
      { module with tables := module.tables ++ [type] } :=
    htype.last (Reads.required helement.nullable (Reads.pure _))
  intro rest
  unfold Module.tableDef
  -- The first byte tells the two ways to declare a table apart.
  split
  · rename_i heq
    rw [List.append_assoc] at heq
    exact absurd heq (helement.ne_marker _ _)
  · exact hplain rest

theorem tableDefs_reads {tables : List TableType} (h : Items TableForm tables bytes)
    (hsized : ∀ type ∈ tables, type.Sized) :
    Reads (Module.tableDefs {} tables.length module) bytes
      { module with tables := module.tables ++ tables } := by
  induction h generalizing module with
  | nil =>
      rw [List.append_nil]
      exact Reads.pure module
  | @cons first rest bytes later head tail ih =>
      have hrest := ih { module with tables := module.tables ++ [first] }
        fun type htype => hsized type (by simp [htype])
      rw [List.append_assoc] at hrest
      exact (head.reads_def module (hsized first (by simp))).bind hrest

theorem tableSection_reads {tables : List TableType} (h : Counted TableForm tables bytes)
    (hcount : tables.length ≤ 100) (hsized : ∀ type ∈ tables, type.Sized)
    (hlimits : { module with tables := module.tables ++ tables }.withinLimits {} = true) :
    Reads (module.tableSection {}) bytes { module with tables := module.tables ++ tables } := by
  obtain ⟨count, items, hnumber, hitems, rfl⟩ := h
  refine hnumber.reads_u32.bind (Reads.required hcount ?_)
  exact (tableDefs_reads module hitems hsized).last (Reads.required hlimits (Reads.pure _))

theorem memorySection_reads {memories : List MemoryType}
    (h : Counted MemoryForm memories bytes) (hcount : memories.length ≤ 100)
    (hsized : ∀ type ∈ memories, type.Sized)
    (hlimits : { module with memories := module.memories ++ memories }.withinLimits {} = true) :
    Reads (module.memorySection {}) bytes
      { module with memories := module.memories ++ memories } := by
  have hmemories : Reads (vector (maxMemories {}) (Module.memoryType {})) bytes memories :=
    h.reads hcount fun type htype part form => form.reads (hsized type htype)
  exact hmemories.last (Reads.required hlimits (Reads.pure _))

theorem tagSection_reads {tags : List FunctionType} (h : Counted (TagForm types) tags bytes)
    (hknows : module.types.Knows types) (hcount : tags.length ≤ 1000000)
    (hresults : ∀ type ∈ tags, type.results = [])
    (hlimits : { module with tags := module.tags ++ tags }.withinLimits {} = true) :
    Reads (module.tagSection {}) bytes { module with tags := module.tags ++ tags } := by
  have htags : Reads (vector maxEntities module.tagType) bytes tags :=
    h.reads hcount fun type htype part form => form.reads hknows (hresults type htype)
  exact htags.last (Reads.required hlimits (Reads.pure _))

theorem globalDefs_reads {globals : List GlobalType} (h : Items GlobalDefForm globals bytes) :
    Reads (Module.globalDefs {} globals.length module) bytes
      { module with globals := module.globals ++ globals } := by
  induction h generalizing module with
  | nil =>
      rw [List.append_nil]
      exact Reads.pure module
  | @cons first rest bytes later head tail ih =>
      obtain ⟨form, value, hform, hvalue, rfl⟩ := head
      have hrest := ih { module with globals := module.globals ++ [first] }
      rw [List.append_assoc] at hrest
      rw [List.append_assoc]
      exact (hform.reads module.types).bind ((hvalue.reads_constant module).bind hrest)

theorem globalSection_reads {globals : List GlobalType}
    (h : Counted GlobalDefForm globals bytes) (hcount : globals.length ≤ 1000000)
    (hlimits : { module with globals := module.globals ++ globals }.withinLimits {} = true) :
    Reads (module.globalSection {}) bytes
      { module with globals := module.globals ++ globals } := by
  obtain ⟨count, items, hnumber, hitems, rfl⟩ := h
  refine hnumber.reads_u32.bind (Reads.required hcount ?_)
  exact (globalDefs_reads module hitems).last (Reads.required hlimits (Reads.pure _))

/-- The check of names says whether no name occurs twice. -/
theorem allDistinct_iff_nodup {names : List String} :
    Module.allDistinct names = true ↔ names.Nodup := by
  induction names with
  | nil => simp [Module.allDistinct]
  | cons first rest ih => simp [Module.allDistinct, ih]

/-- The module with exports.  Functions that are exported are named outside of bodies. -/
def Module.withExports (module : Module) (decls : List ExportDecl) : Module :=
  { module with
    exports := decls
    named := decls.filterMap (·.target.function?) ++ module.named }

theorem exportSection_reads {decls : List ExportDecl} (h : Counted ExportForm decls bytes)
    (hcount : decls.length ≤ 1000000) (hdistinct : (decls.map (·.name)).Nodup)
    (hnames : ∀ decl ∈ decls, decl.name.utf8ByteSize ≤ 100000)
    (hthere : ∀ decl ∈ decls, module.hasIndex decl.target = true) :
    Reads module.exportSection bytes (module.withExports decls) := by
  have hdecls : Reads (vector maxEntities module.exportDecl) bytes decls :=
    h.reads hcount fun decl hdecl part form => form.reads (hnames decl hdecl) (hthere decl hdecl)
  exact hdecls.last (Reads.required (allDistinct_iff_nodup.2 hdistinct) (Reads.pure _))

theorem codeSection_reads {indices : List Nat} (h : Counted (fun _ => BodyForm) indices bytes)
    (hcount : module.bodiless.length = indices.length) :
    Reads (module.codeSection {}) bytes { module with bodiless := [] } := by
  obtain ⟨count, items, hnumber, hitems, rfl⟩ := h
  refine hnumber.reads_u32.bind (Reads.required hcount.symm ?_)
  exact (bodies_reads hitems module hcount).last (Reads.pure _)

end Wasm
end ContractAdmission
