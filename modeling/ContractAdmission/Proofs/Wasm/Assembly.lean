import ContractAdmission.Proofs.Wasm.Sections

/-!
# Reading a whole blueprint

The sections of an encoding are read one after the other.  `Extends` says what a stretch
of bytes adds to a module, and that the sections in it stand in the standard order;
stretches compose, and the module of the whole binary is put together from its sections.
-/

namespace ContractAdmission
namespace Wasm

open Reader

/-- Bytes that stand for a section. -/
def SectionForm (part : Section) (bytes : Bytes) : Prop := Reads Section.read bytes part

/-- A binary is cut into the sections that it consists of. -/
theorem readAll_of_items {parts : List Section} {bytes : Bytes}
    (h : Items SectionForm parts bytes) {bound : Nat} (hbound : bytes.length ≤ bound) :
    Section.readAll bound bytes = some parts := by
  induction h generalizing bound with
  | nil => cases bound <;> rfl
  | @cons first rest bytes later head tail ih =>
      cases bytes with
      | nil =>
          -- A section has at least the byte that announces it.
          have himpossible := head []
          contradiction
      | cons b bytes =>
          simp only [List.cons_append, List.length_cons, List.length_append] at hbound
          obtain ⟨bound, rfl⟩ : ∃ more, bound = more + 1 := ⟨bound - 1, by omega⟩
          have hhead : Section.read (b :: (bytes ++ later)) = some (first, later) := head later
          have htail : Section.readAll bound later = some rest := ih (by omega)
          simp only [List.cons_append, Section.readAll, hhead, htail]
          rfl

theorem Items.single {α : Type} {form : α → Bytes → Prop} {value : α} {bytes : Bytes}
    (h : form value bytes) : Items form [value] bytes := by
  rw [← List.append_nil bytes]
  exact .cons h .nil

theorem Items.append {α : Type} {form : α → Bytes → Prop} {first second : List α}
    {bytes later : Bytes} (h : Items form first bytes) (h' : Items form second later) :
    Items form (first ++ second) (bytes ++ later) := by
  induction h with
  | nil => exact h'
  | cons head tail ih =>
      rw [List.append_assoc]
      exact Items.cons head ih

/-- The bytes are sections that make one module of another, whatever places of the
section order are closed up to a first one, and leave those from a second one open. -/
def Extends (bytes : Bytes) (first next : Module) (low high : Nat) : Prop :=
  ∃ parts, Items SectionForm parts bytes ∧ ∀ closed ≤ low, ∃ later ≤ high,
    parts.foldlM (Module.addSection {}) { first with closed := closed } =
      some { next with closed := later }

theorem Extends.append {bytes bytes' : Bytes} {first middle next : Module}
    {low high low' high' : Nat} (h : Extends bytes first middle low high)
    (h' : Extends bytes' middle next low' high') (hle : high ≤ low') :
    Extends (bytes ++ bytes') first next low high' := by
  obtain ⟨parts, hparts, hfold⟩ := h
  obtain ⟨parts', hparts', hfold'⟩ := h'
  refine ⟨parts ++ parts', hparts.append hparts', ?_⟩
  intro closed hclosed
  -- What the first stretch leaves open is all that the second one asks for.
  obtain ⟨middleClosed, hmiddle, hfirst⟩ := hfold closed hclosed
  obtain ⟨later, hlater, hsecond⟩ := hfold' middleClosed (by omega)
  refine ⟨later, hlater, ?_⟩
  rw [List.foldlM_append, hfirst]
  exact hsecond

/-- A section that is not a custom one is read in its place. -/
theorem addSection_of_exactly (module : Module) {next : Module} {id : SectionId} {contents : Bytes}
    (hid : id ≠ .custom) (hplace : module.closed ≤ id.rank)
    (h : exactly (module.sectionContents {} id) contents = some next) :
    module.addSection {} ⟨id, contents⟩ = some { next with closed := id.rank + 1 } := by
  unfold Module.addSection
  split
  · contradiction
  · rw [if_pos hplace, h]
    rfl

/-- No bytes leave a module as it is. -/
theorem Extends.nil (module : Module) (place : Nat) : Extends [] module module place (place + 1) :=
  ⟨[], Items.nil, fun closed hclosed => ⟨closed, by omega, rfl⟩⟩

/-- A section makes of a module what its contents make of it. -/
theorem extends_of_reads {code : UInt8} {id : SectionId} {size contents : Bytes}
    {first next : Module} (hcode : SectionId.ofByte? code = some id) (hid : id ≠ .custom)
    (hsize : U32 contents.length size)
    (hreads : ∀ closed, Reads (({ first with closed := closed } : Module).sectionContents {} id)
      contents { next with closed := closed }) :
    Extends (code :: (size ++ contents)) first next id.rank (id.rank + 1) := by
  have hform : SectionForm ⟨id, contents⟩ (code :: (size ++ contents)) := by
    refine Reads.byte_bind ?_
    rw [hcode]
    exact (Reads.expect id).bind (hsize.reads_u32.bind ((Reads.take rfl).last (Reads.pure _)))
  refine ⟨[⟨id, contents⟩], Items.single hform, ?_⟩
  intro closed hclosed
  refine ⟨id.rank + 1, Nat.le_refl _, ?_⟩
  have hadded := addSection_of_exactly { first with closed := closed } hid hclosed
    (hreads closed).exactly
  rw [List.foldlM_cons, hadded]
  rfl

/-- The section of a list makes of a module what its contents make of it.  Where it is
left out the module has to be the same. -/
theorem PartForm.extends {α : Type} {code : UInt8} {form : α → Bytes → Prop}
    {values : List α} {bytes : Bytes} (h : PartForm code form values bytes) {id : SectionId}
    (hcode : SectionId.ofByte? code = some id) (hid : id ≠ .custom) {first next : Module}
    (hnone : values = [] → next = first)
    (hreads : ∀ contents closed, Counted form values contents →
      Reads (({ first with closed := closed } : Module).sectionContents {} id) contents
        { next with closed := closed }) :
    Extends bytes first next id.rank (id.rank + 1) := by
  cases h with
  | leftOut => exact hnone rfl ▸ Extends.nil first id.rank
  | @there _ size contents counted sized =>
      exact extends_of_reads hcode hid sized fun closed => hreads contents closed counted

/-- After the section of types there is a table that knows them. -/
theorem PartForm.extends_types {types : List FunctionType} {bytes : Bytes}
    (h : PartForm 1 SignatureForm types bytes)
    (harities : ∀ type ∈ types, type.params.length ≤ 1000 ∧ type.results.length ≤ 1000)
    (hcount : types.length ≤ 1000000) :
    ∃ table : TypeTable, table.Knows types ∧
      Extends bytes {} { types := table } SectionId.types.rank (SectionId.types.rank + 1) := by
  cases h with
  | leftOut => exact ⟨{}, TypeTable.knows_of_types_eq rfl, Extends.nil {} _⟩
  | @there _ size contents counted sized =>
      obtain ⟨table, htypes, hreads⟩ := typeSection_reads counted harities hcount
      refine ⟨table, TypeTable.knows_of_types_eq htypes, ?_⟩
      exact extends_of_reads rfl (by decide) sized fun closed =>
        hreads { closed := closed } rfl

theorem PartForm.exists_form {α : Type} {code : UInt8} {form : α → Bytes → Prop}
    {values : List α} {bytes : Bytes} (h : PartForm code form values bytes) :
    ∀ value ∈ values, ∃ part, form value part := by
  cases h with
  | leftOut => simp
  | there counted sized => exact counted.exists_form

namespace Blueprint

variable (plan : Blueprint) (table : TypeTable)

/-- The module after the sections up to the one of imports. -/
def afterImports : Module := ({ types := table } : Module).addImports plan.imports

/-- The module after the sections up to the one of functions. -/
def afterFunctions : Module := (plan.afterImports table).addFunctions plan.functions

/-- The module after the sections up to the one of tables. -/
def afterTables : Module :=
  { plan.afterFunctions table with
    tables := (plan.afterFunctions table).tables ++ plan.tables }

/-- The module after the sections up to the one of memories. -/
def afterMemories : Module :=
  { plan.afterTables table with
    memories := (plan.afterTables table).memories ++ plan.memories }

/-- The module after the sections up to the one of tags. -/
def afterTags : Module :=
  { plan.afterMemories table with tags := (plan.afterMemories table).tags ++ plan.tags }

/-- The module after the sections up to the one of globals. -/
def afterGlobals : Module :=
  { plan.afterTags table with globals := (plan.afterTags table).globals ++ plan.globals }

/-- The module after the sections up to the one of exports. -/
def afterExports : Module := (plan.afterGlobals table).withExports plan.exports

/-- The module after all sections. -/
def module : Module := { plan.afterExports table with bodiless := [] }

variable {plan table}

/-- A module whose index spaces are not longer than those of a blueprint within the
limits is within the limits. -/
theorem Sized.withinLimits (h : plan.Sized) {module : Module}
    (hfunctions : module.functions.length ≤ plan.allFunctions.length)
    (htables : module.tables.length ≤ plan.allTables.length)
    (hmemories : module.memories.length ≤ plan.allMemories.length)
    (hglobals : module.globals.length ≤ plan.allGlobals.length)
    (htags : module.tags.length ≤ plan.allTags.length) :
    module.withinLimits {} = true := by
  have hfunctionCount := Nat.le_trans hfunctions h.functionCount
  have htableCount := Nat.le_trans htables h.tableCount
  have hmemoryCount := Nat.le_trans hmemories h.memoryCount
  have hglobalCount := Nat.le_trans hglobals h.globalCount
  have htagCount := Nat.le_trans htags h.tagCount
  simp [Module.withinLimits, maxEntities, maxTables, maxMemories, hfunctionCount, htableCount,
    hmemoryCount, hglobalCount, htagCount]

theorem Sized.importSized (h : plan.Sized) : ∀ decl ∈ plan.imports, decl.type.Sized := by
  intro decl hdecl
  cases htype : decl.type with
  | function type => trivial
  | global type => trivial
  | table type =>
      refine h.tablesSized type (List.mem_append_left _ (List.mem_filterMap.2 ⟨decl, hdecl, ?_⟩))
      rw [htype]
      rfl
  | memory type =>
      refine h.memoriesSized type
        (List.mem_append_left _ (List.mem_filterMap.2 ⟨decl, hdecl, ?_⟩))
      rw [htype]
      rfl
  | tag type =>
      refine h.tagsLeaveNothing type
        (List.mem_append_left _ (List.mem_filterMap.2 ⟨decl, hdecl, ?_⟩))
      rw [htype]
      rfl

/-- On the way to the module of a blueprint the index spaces are never longer than in
the end, so each of the modules is within the limits. -/
theorem Sized.withinLimits_stage (h : plan.Sized) (table : TypeTable) :
    ∀ module ∈ [plan.afterImports table, plan.afterFunctions table, plan.afterTables table,
      plan.afterMemories table, plan.afterTags table, plan.afterGlobals table],
      module.withinLimits {} = true := by
  intro module hmodule
  simp only [List.mem_cons, List.not_mem_nil, or_false] at hmodule
  -- Five index spaces at six stages: each is a first part of what it is in the end.
  apply h.withinLimits <;>
    rcases hmodule with rfl | rfl | rfl | rfl | rfl | rfl <;>
    simp [afterImports, afterFunctions, afterTables, afterMemories, afterTags, afterGlobals,
      Module.addImports, Module.addFunctions, allFunctions, allTables, allMemories,
      allGlobals, allTags]

/-- What is there in a blueprint is there in its module before the exports. -/
theorem hasIndex_afterGlobals {target : ExternIndex} (h : plan.Has target) :
    (plan.afterGlobals table).hasIndex target = true := by
  cases target <;> exact decide_eq_true h

namespace Encoding

variable (encoding : plan.Encoding)

theorem extends_imports (h : plan.Sized) (hknows : table.Knows plan.types) :
    Extends encoding.imports { types := table } (plan.afterImports table)
      SectionId.imports.rank (SectionId.imports.rank + 1) := by
  refine encoding.importsForm.extends rfl (by decide) ?_ ?_
  · intro hnone
    simp [afterImports, Module.addImports, hnone]
  · intro contents closed counted
    exact importSection_reads { types := table, closed := closed } counted hknows
      h.importCount h.importNames h.importSized
      (h.withinLimits_stage table (plan.afterImports table) (by simp))

theorem extends_functions (h : plan.Sized) (hknows : table.Knows plan.types) :
    Extends encoding.functions (plan.afterImports table) (plan.afterFunctions table)
      SectionId.functions.rank (SectionId.functions.rank + 1) := by
  have hcount : plan.functions.length ≤ 1000000 :=
    Nat.le_trans (by simp [allFunctions]) h.functionCount
  refine encoding.functionsForm.extends rfl (by decide) ?_ ?_
  · intro hnone
    simp [afterFunctions, Module.addFunctions, hnone]
    rfl
  · intro contents closed counted
    exact functionSection_reads { plan.afterImports table with closed := closed }
      counted hknows hcount (h.withinLimits_stage table (plan.afterFunctions table) (by simp))

theorem extends_tables (h : plan.Sized) :
    Extends encoding.tables (plan.afterFunctions table) (plan.afterTables table)
      SectionId.tables.rank (SectionId.tables.rank + 1) := by
  have hcount : plan.tables.length ≤ 100 :=
    Nat.le_trans (by simp [allTables]) h.tableCount
  have hsized : ∀ type ∈ plan.tables, type.Sized := fun type htype =>
    h.tablesSized type (List.mem_append_right _ htype)
  refine encoding.tablesForm.extends rfl (by decide) ?_ ?_
  · intro hnone
    simp [afterTables, hnone]
  · intro contents closed counted
    exact tableSection_reads { plan.afterFunctions table with closed := closed }
      counted hcount hsized (h.withinLimits_stage table (plan.afterTables table) (by simp))

theorem extends_memories (h : plan.Sized) :
    Extends encoding.memories (plan.afterTables table) (plan.afterMemories table)
      SectionId.memories.rank (SectionId.memories.rank + 1) := by
  have hcount : plan.memories.length ≤ 100 :=
    Nat.le_trans (by simp [allMemories]) h.memoryCount
  have hsized : ∀ type ∈ plan.memories, type.Sized := fun type htype =>
    h.memoriesSized type (List.mem_append_right _ htype)
  refine encoding.memoriesForm.extends rfl (by decide) ?_ ?_
  · intro hnone
    simp [afterMemories, hnone]
  · intro contents closed counted
    exact memorySection_reads { plan.afterTables table with closed := closed }
      counted hcount hsized (h.withinLimits_stage table (plan.afterMemories table) (by simp))

theorem extends_tags (h : plan.Sized) (hknows : table.Knows plan.types) :
    Extends encoding.tags (plan.afterMemories table) (plan.afterTags table)
      SectionId.tags.rank (SectionId.tags.rank + 1) := by
  have hcount : plan.tags.length ≤ 1000000 :=
    Nat.le_trans (by simp [allTags]) h.tagCount
  have hresults : ∀ type ∈ plan.tags, type.results = [] := fun type htype =>
    h.tagsLeaveNothing type (List.mem_append_right _ htype)
  refine encoding.tagsForm.extends rfl (by decide) ?_ ?_
  · intro hnone
    simp [afterTags, hnone]
  · intro contents closed counted
    exact tagSection_reads { plan.afterMemories table with closed := closed }
      counted hknows hcount hresults (h.withinLimits_stage table (plan.afterTags table) (by simp))

theorem extends_globals (h : plan.Sized) :
    Extends encoding.globals (plan.afterTags table) (plan.afterGlobals table)
      SectionId.globals.rank (SectionId.globals.rank + 1) := by
  have hcount : plan.globals.length ≤ 1000000 :=
    Nat.le_trans (by simp [allGlobals]) h.globalCount
  refine encoding.globalsForm.extends rfl (by decide) ?_ ?_
  · intro hnone
    simp [afterGlobals, hnone]
  · intro contents closed counted
    exact globalSection_reads { plan.afterTags table with closed := closed }
      counted hcount (h.withinLimits_stage table (plan.afterGlobals table) (by simp))

theorem extends_exports (h : plan.Sized) :
    Extends encoding.exports (plan.afterGlobals table) (plan.afterExports table)
      SectionId.exports.rank (SectionId.exports.rank + 1) := by
  refine encoding.exportsForm.extends rfl (by decide) ?_ ?_
  · intro hnone
    simp [afterExports, Module.withExports, hnone]
    rfl
  · intro contents closed counted
    exact exportSection_reads { plan.afterGlobals table with closed := closed }
      counted h.exportCount h.distinctNames h.exportNames fun decl hdecl =>
        hasIndex_afterGlobals (h.targetsThere decl hdecl)

theorem extends_code (hknows : table.Knows plan.types) :
    Extends encoding.code (plan.afterExports table) (plan.module table)
      SectionId.code.rank (SectionId.code.rank + 1) := by
  -- Every index of a declared function has a type, so there is a body for each of them.
  have hcount : (plan.functions.filterMap table.function?).length = plan.functions.length := by
    rw [List.filterMap_length_eq_length]
    intro index hindex
    obtain ⟨part, hless, -⟩ := encoding.functionsForm.exists_form index hindex
    rw [hknows, List.getElem?_eq_getElem hless]
    rfl
  refine encoding.codeForm.extends rfl (by decide) ?_ ?_
  · intro hnone
    simp [module, afterExports, Module.withExports, afterGlobals, afterTags, afterMemories,
      afterTables, afterFunctions, Module.addFunctions, hnone]
  · intro contents closed counted
    exact codeSection_reads { plan.afterExports table with closed := closed }
      counted hcount

/-- All sections together make the module of a blueprint of an empty one. -/
theorem extends_module (h : plan.Sized) :
    ∃ table : TypeTable, Extends (encoding.types ++ (encoding.imports ++ (encoding.functions ++
      (encoding.tables ++ (encoding.memories ++ (encoding.tags ++ (encoding.globals ++
        (encoding.exports ++ encoding.code)))))))) {} (plan.module table)
      SectionId.types.rank (SectionId.code.rank + 1) := by
  obtain ⟨table, hknows, htypes⟩ := encoding.typesForm.extends_types h.arities h.typeCount
  refine ⟨table, ?_⟩
  -- The stretches are joined from the last one, as the bytes are bracketed.
  have hexports := (encoding.extends_exports h).append (encoding.extends_code hknows) (by decide)
  have hglobals := (encoding.extends_globals h).append hexports (by decide)
  have htags := (encoding.extends_tags h hknows).append hglobals (by decide)
  have hmemories := (encoding.extends_memories h).append htags (by decide)
  have htables := (encoding.extends_tables h).append hmemories (by decide)
  have hfunctions := (encoding.extends_functions h hknows).append htables (by decide)
  have himports := (encoding.extends_imports h hknows).append hfunctions (by decide)
  exact htypes.append himports (by decide)

/-- An encoding is decoded as a module with the imports and the exports of its
blueprint. -/
theorem decode_bytes (h : plan.Sized) :
    ∃ module : Module, Module.decode {} encoding.bytes = some module ∧
      module.imports = plan.imports ∧ module.exports = plan.exports := by
  obtain ⟨table, parts, hparts, hfold⟩ := encoding.extends_module h
  obtain ⟨closed, -, hmodule⟩ := hfold 0 (Nat.zero_le _)
  refine ⟨{ plan.module table with closed := closed }, ?_, rfl, rfl⟩
  have hsplit : Section.split encoding.bytes = some parts := by
    rw [Section.split, bytes, List.take_left, if_pos rfl, List.drop_left]
    exact readAll_of_items hparts (by simp)
  rw [Module.decode, hsplit]
  simp only [Option.bind_eq_bind, Option.bind_some, Module.ofSections]
  rw [show ({} : Module) = { ({} : Module) with closed := 0 } from rfl, hmodule]
  rfl

end Encoding
end Blueprint

end Wasm
end ContractAdmission
