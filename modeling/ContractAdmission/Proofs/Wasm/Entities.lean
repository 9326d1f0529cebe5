import ContractAdmission.Proofs.Gathering
import ContractAdmission.Proofs.Wasm.Blueprint

/-!
# Reading the entities of a blueprint

Every clause of the format for types, imports and exports is read back as what it
stands for.  The declared types are in a table by then; all that is asked of the table
is that it knows the types of functions by their indices.
-/

namespace ContractAdmission
namespace Wasm

open Reader

theorem ReferenceForm.reads {type : ReferenceType} {bytes : Bytes}
    (h : ReferenceForm type bytes) : Reads ReferenceType.read bytes type := by
  obtain ⟨kind⟩ := h
  cases kind <;> exact fun rest => rfl

theorem ValueForm.reads {type : ValueType} {bytes : Bytes} (h : ValueForm type bytes) :
    Reads ValueType.read bytes type := by
  cases h with
  | reference form =>
      obtain ⟨kind⟩ := form
      cases kind <;> exact fun rest => rfl
  | _ => exact fun rest => rfl

/-- Types of references have no index that could be replaced. -/
theorem ReferenceForm.reindex?_eq {type : ReferenceType} {bytes : Bytes}
    (h : ReferenceForm type bytes) (f : Nat → Option Nat) : type.reindex? f = some type := by
  obtain ⟨kind⟩ := h
  rfl

theorem ValueForm.reindex?_eq {type : ValueType} {bytes : Bytes} (h : ValueForm type bytes)
    (f : Nat → Option Nat) : type.reindex? f = some type := by
  cases h with
  | reference form => simp [ValueType.reindex?, form.reindex?_eq f]
  | _ => rfl

theorem ReferenceForm.reads_known {type : ReferenceType} {bytes : Bytes}
    (h : ReferenceForm type bytes) (table : TypeTable) :
    Reads table.readReference bytes type := by
  refine h.reads.last ?_
  rw [TypeTable.reference?, h.reindex?_eq]
  exact Reads.expect type

theorem ValueForm.reads_known {type : ValueType} {bytes : Bytes} (h : ValueForm type bytes)
    (table : TypeTable) : Reads table.readValue bytes type := by
  refine h.reads.last ?_
  rw [TypeTable.value?, h.reindex?_eq]
  exact Reads.expect type

/-- What stands in a list of items has a form. -/
theorem Items.exists_form {α : Type} {form : α → Bytes → Prop} {values : List α}
    {bytes : Bytes} (h : Items form values bytes) :
    ∀ value ∈ values, ∃ part, form value part := by
  induction h with
  | nil => simp
  | @cons first rest bytes later head tail ih =>
      intro value hvalue
      rcases List.mem_cons.1 hvalue with rfl | hlater
      · exact ⟨bytes, head⟩
      · exact ih value hlater

theorem Counted.exists_form {α : Type} {form : α → Bytes → Prop} {values : List α}
    {bytes : Bytes} (h : Counted form values bytes) :
    ∀ value ∈ values, ∃ part, form value part := by
  obtain ⟨count, items, -, hitems, -⟩ := h
  exact hitems.exists_form

/-- The declaration of a type of functions, which names no wider type. -/
def FunctionType.declared (type : FunctionType) : TypeDef := ⟨true, none, .function type⟩

theorem SignatureForm.reads {type : FunctionType} {bytes : Bytes} (h : SignatureForm type bytes)
    (hparams : type.params.length ≤ 1000) (hresults : type.results.length ≤ 1000) :
    Reads readGroup bytes [type.declared] := by
  obtain ⟨params, results, hfirst, hsecond, rfl⟩ := h
  have hreads : Reads FunctionType.read (params ++ results) type := by
    have hp : Reads (vector FunctionType.maxArity ValueType.read) params type.params :=
      hfirst.reads hparams fun value _ part form => form.reads
    have hr : Reads (vector FunctionType.maxArity ValueType.read) results type.results :=
      hsecond.reads hresults fun value _ part form => form.reads
    exact hp.bind (hr.last (Reads.pure _))
  have hshape : Reads (Shape.readAfter 0x60) (params ++ results) (.function type) :=
    hreads.map Shape.function
  have hdef : Reads (TypeDef.readAfter 0x60) (params ++ results) type.declared := by
    rw [TypeDef.readAfter, if_neg (by decide)]
    exact hshape.last (Reads.pure _)
  refine Reads.byte_bind ?_
  rw [if_neg (by decide)]
  exact hdef.last (Reads.pure _)

theorem SignatureForm.reindex?_eq {type : FunctionType} {bytes : Bytes}
    (h : SignatureForm type bytes) (f : Nat → Option Nat) :
    type.declared.reindex? f = some type.declared := by
  obtain ⟨params, results, hparams, hresults, -⟩ := h
  have hfirst : type.params.mapM (ValueType.reindex? f) = some type.params :=
    mapM_eq_some_self fun value hvalue =>
      have ⟨_, form⟩ := hparams.exists_form value hvalue
      form.reindex?_eq f
  have hsecond : type.results.mapM (ValueType.reindex? f) = some type.results :=
    mapM_eq_some_self fun value hvalue =>
      have ⟨_, form⟩ := hresults.exists_form value hvalue
      form.reindex?_eq f
  have htype : type.reindex? f = some type := by
    simp [FunctionType.reindex?, hfirst, hsecond]
  simp [FunctionType.declared, TypeDef.reindex?, Shape.reindex?, htype]

/-- A type of functions is added to a table at its end. -/
theorem TypeTable.add?_signature {type : FunctionType} {bytes : Bytes} (table : TypeTable)
    (h : SignatureForm type bytes) :
    ∃ next, table.add? [type.declared] = some next ∧
      next.types = table.types ++ [type.declared] := by
  -- The type refers to no other type, so it is the same under any numbering.
  have hsame : ∀ f, [type.declared].mapM (TypeDef.reindex? f) = some [type.declared] := by
    intro f
    exact mapM_eq_some_self fun value hvalue => by
      rw [List.mem_singleton.1 hvalue, h.reindex?_eq f]
  have hrelative : table.relative? [type.declared] = some [type.declared] := hsame _
  have hadmits : ∀ (next : TypeTable) index, next.admits index type.declared = true :=
    fun _ _ => rfl
  simp [TypeTable.add?, hrelative, hsame, hadmits]

/-- A table knows the types of functions on a list by their places there. -/
def TypeTable.Knows (table : TypeTable) (types : List FunctionType) : Prop :=
  ∀ index, table.function? index = types[index]?

/-- The table that is left by the section of types has them in their order. -/
theorem typeGroups_reads {types : List FunctionType} {bytes : Bytes}
    (h : Items SignatureForm types bytes) (table : TypeTable)
    (harities : ∀ type ∈ types, type.params.length ≤ 1000 ∧ type.results.length ≤ 1000)
    (hcount : table.types.length + types.length ≤ 1000000) :
    ∃ next, Reads (Module.typeGroups types.length table) bytes next ∧
      next.types = table.types ++ types.map FunctionType.declared := by
  induction h generalizing table with
  | nil => exact ⟨table, Reads.pure table, by simp⟩
  | @cons first rest bytes later head tail ih =>
      obtain ⟨hparams, hresults⟩ := harities first (by simp)
      -- The table grows by what the list loses, so the bound on both together is kept.
      obtain ⟨middle, hadded, hmiddle⟩ := table.add?_signature head
      have hlength : middle.types.length = table.types.length + 1 := by
        simp [hmiddle]
      rw [List.length_cons] at hcount
      obtain ⟨next, hnext, htypes⟩ := ih middle
        (fun type htype => harities type (by simp [htype])) (by omega)
      refine ⟨next, ?_, by simp [htypes, hmiddle]⟩
      rw [List.length_cons, Module.typeGroups]
      refine (head.reads hparams hresults).bind ?_
      rw [hadded]
      exact (Reads.expect middle).bind
        (Reads.required (hlength ▸ by unfold maxEntities; omega) hnext)

/-- Declared types of functions are known by their places. -/
theorem TypeTable.knows_of_types_eq {table : TypeTable} {types : List FunctionType}
    (h : table.types = types.map FunctionType.declared) : table.Knows types := by
  intro index
  rw [TypeTable.function?, TypeTable.shape?, h, List.getElem?_map]
  cases types[index]? with
  | none => rfl
  | some type => rfl

theorem LimitsForm.reads {bits : Nat} {limits : Limits} {bytes : Bytes}
    (h : LimitsForm bits limits bytes) (hbits : 0 < bits) :
    Reads (Limits.read bits limits.greatest.isSome) bytes limits := by
  cases h with
  | least form => exact (form.reads hbits).last (Reads.pure _)
  | both form form' => exact (form.reads hbits).bind ((form'.reads hbits).last (Reads.pure _))

theorem addressBits_pos (index64 : Bool) : 0 < addressBits index64 := by
  cases index64 <;> decide

/-- The byte before limits has the bits that it was made of, and no others. -/
theorem flag_limitFlags (limits : Limits) (shared index64 : Bool) :
    (limitFlags limits shared index64).toNat < 8 ∧
      flag (limitFlags limits shared index64) 0 = limits.greatest.isSome ∧
      flag (limitFlags limits shared index64) 1 = shared ∧
      flag (limitFlags limits shared index64) 2 = index64 ∧
      flag (limitFlags limits shared index64) 3 = false := by
  unfold limitFlags
  cases limits.greatest.isSome <;> cases shared <;> cases index64 <;> decide

theorem Limits.ordered_of_forall {limits : Limits}
    (h : ∀ greatest ∈ limits.greatest, limits.least ≤ greatest) : limits.ordered = true := by
  obtain ⟨least, greatest⟩ := limits
  cases greatest with
  | none => rfl
  | some greatest => exact decide_eq_true (h greatest rfl)

theorem Limits.within_of_forall {limits : Limits} {bound : Nat} (hleast : limits.least ≤ bound)
    (h : ∀ greatest ∈ limits.greatest, greatest ≤ bound) : limits.within bound = true := by
  obtain ⟨least, greatest⟩ := limits
  cases greatest with
  | none => simpa [Limits.within] using hleast
  | some greatest =>
      have hgreatest : greatest ≤ bound := h greatest rfl
      have hleast' : least ≤ bound := hleast
      simp [Limits.within, hleast', hgreatest]

theorem TableType.Sized.admitted {type : TableType} (h : type.Sized) :
    type.admitted {} = true := by
  simp [TableType.admitted, h.notShared, Limits.ordered_of_forall h.ordered]

theorem MemoryType.Sized.admitted {type : MemoryType} (h : type.Sized)
    (hpages : type.pageBits = none) : type.admitted {} = true := by
  have hmax : type.maxPages = valueCount (if type.index64 then 48 else 16) := by
    rw [MemoryType.maxPages, hpages]
    cases type.index64 <;> rfl
  have hwithin : type.limits.within type.maxPages = true :=
    Limits.within_of_forall (hmax ▸ h.leastReached) (hmax ▸ h.greatestReached)
  have hshared : (!type.shared || type.limits.greatest.isSome) = true := by
    cases hcase : type.shared with
    | false => rfl
    | true => simpa [Option.isSome_iff_ne_none] using h.sharedBounded hcase
  simp [MemoryType.admitted, MemoryType.pageSizeKnown, hpages, hwithin, hshared,
    Limits.ordered_of_forall h.ordered]

theorem TableForm.reads {type : TableType} {bytes : Bytes} (h : TableForm type bytes)
    (hsized : type.Sized) (module : Module) : Reads (module.tableType {}) bytes type := by
  obtain ⟨element, limits, helement, hlimits, rfl⟩ := h
  obtain ⟨hsmall, hgreatest, hshared, hindex64, -⟩ :=
    flag_limitFlags type.limits type.shared type.index64
  have hread : Reads (TableType.read module.types)
      (element ++ limitFlags type.limits type.shared type.index64 :: limits) type := by
    refine (helement.reads_known module.types).bind ?_
    refine Reads.byte_bind (Reads.required hsmall ?_)
    rw [hgreatest, hshared, hindex64]
    exact (hlimits.reads (addressBits_pos _)).last (Reads.pure _)
  exact hread.last (Reads.required hsized.admitted (Reads.pure _))

theorem MemoryForm.reads {type : MemoryType} {bytes : Bytes} (h : MemoryForm type bytes)
    (hsized : type.Sized) : Reads (Module.memoryType {}) bytes type := by
  obtain ⟨limits, hpages, hlimits, rfl⟩ := h
  obtain ⟨hsmall, hgreatest, hshared, hindex64, hcustom⟩ :=
    flag_limitFlags type.limits type.shared type.index64
  have hread : Reads MemoryType.read
      (limitFlags type.limits type.shared type.index64 :: limits) type := by
    refine Reads.byte_bind (Reads.required (by omega) ?_)
    rw [hgreatest, hshared, hindex64, hcustom]
    refine (hlimits.reads (addressBits_pos _)).last ((Reads.pure none).last ?_)
    rw [← hpages]
    exact Reads.pure type
  exact hread.last (Reads.required (hsized.admitted hpages) (Reads.pure _))

theorem GlobalForm.reads {type : GlobalType} {bytes : Bytes} (h : GlobalForm type bytes)
    (table : TypeTable) : Reads (GlobalType.read table) bytes type := by
  obtain ⟨value, hvalue, rfl⟩ := h
  refine (hvalue.reads_known table).bind ((Reads.byte _).last ?_)
  obtain ⟨value, isMutable⟩ := type
  cases isMutable <;> exact fun rest => rfl

theorem IndexForm.reads {types : List FunctionType} {index : Nat} {bytes : Bytes}
    (h : IndexForm types index bytes) {module : Module} (hknows : module.types.Knows types) :
    Reads module.functionIndexType bytes index := by
  refine h.2.reads_u32.last (Reads.required ?_ (Reads.pure index))
  rw [hknows, List.getElem?_eq_getElem h.1]
  rfl

theorem TagForm.reads {types : List FunctionType} {type : FunctionType} {bytes : Bytes}
    (h : TagForm types type bytes) {module : Module} (hknows : module.types.Knows types)
    (hresults : type.results = []) : Reads module.tagType bytes type := by
  obtain ⟨index, rest, htype, hindex, rfl⟩ := h
  have hfound : Reads module.functionType rest type := by
    refine hindex.reads_u32.last ?_
    rw [hknows, htype]
    exact Reads.expect type
  refine Reads.byte_bind (Reads.required rfl ?_)
  exact hfound.last (Reads.required hresults (Reads.pure type))

/-- What the engine asks of an imported entity beyond its form. -/
def ExternType.Sized : ExternType → Prop
  | .table type => type.Sized
  | .memory type => type.Sized
  | .tag type => type.results = []
  | .function _ | .global _ => True

theorem ExternForm.reads {types : List FunctionType} {type : ExternType} {bytes : Bytes}
    (h : ExternForm types type bytes) {module : Module} (hknows : module.types.Knows types)
    (hsized : type.Sized) : Reads (module.externType {}) bytes type := by
  cases h with
  | function form =>
      exact Reads.byte_bind ((form.reads hknows).last (Reads.pure _))
  | table form =>
      exact Reads.byte_bind ((form.reads hsized module).last (Reads.pure _))
  | memory form =>
      exact Reads.byte_bind ((form.reads hsized).last (Reads.pure _))
  | global form =>
      exact Reads.byte_bind ((form.reads module.types).last (Reads.pure _))
  | tag form =>
      exact Reads.byte_bind ((form.reads hknows hsized).last (Reads.pure _))

theorem ImportForm.reads {types : List FunctionType} {decl : ImportDecl} {bytes : Bytes}
    (h : ImportForm types decl bytes) {module : Module} (hknows : module.types.Knows types)
    (hmoduleName : decl.moduleName.utf8ByteSize ≤ 100000)
    (hname : decl.name.utf8ByteSize ≤ 100000) (hsized : decl.type.Sized) :
    Reads (module.importDecl {}) bytes decl := by
  obtain ⟨moduleName, name, type, hfirst, hsecond, htype, rfl⟩ := h
  exact (hfirst.reads hmoduleName).bind ((hsecond.reads hname).bind
    ((htype.reads hknows hsized).last (Reads.pure _)))

theorem TargetForm.reads {target : ExternIndex} {bytes : Bytes} (h : TargetForm target bytes) :
    Reads Module.externIndex bytes target := by
  cases h with
  | function form | table form | memory form | global form | tag form =>
      exact Reads.byte_bind (form.reads_u32.last (Reads.pure _))

theorem ExportForm.reads {decl : ExportDecl} {bytes : Bytes} (h : ExportForm decl bytes)
    {module : Module} (hname : decl.name.utf8ByteSize ≤ 100000)
    (hthere : module.hasIndex decl.target = true) : Reads module.exportDecl bytes decl := by
  obtain ⟨name, target, hfirst, htarget, rfl⟩ := h
  exact (hfirst.reads hname).bind (htarget.reads.last (Reads.required hthere (Reads.pure _)))

end Wasm
end ContractAdmission
