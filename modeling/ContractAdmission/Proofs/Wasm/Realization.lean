import ContractAdmission.Proofs.Gathering
import ContractAdmission.Proofs.Wasm.Blueprint
import Mathlib.Algebra.Ring.Nat

/-!
# Blueprints of interfaces

Every interface that a binary can have within the limits of the engine is listed by a
blueprint that can be encoded: each kind gets an entity as plain as can be, and all
exports of a kind refer to the first entity of the kind.
-/

namespace ContractAdmission
namespace Wasm

/-- A number of seven bits is its own form. -/
theorem Leb.of_lt {number : Nat} (h : number < 0x80) : Leb number [UInt8.ofNat number] := by
  have hbyte : (UInt8.ofNat number).toNat = number := by
    rw [UInt8.toNat_ofNat']
    omega
  have hlast : Leb (UInt8.ofNat number).toNat [UInt8.ofNat number] := .last (by omega)
  rwa [hbyte] at hlast

/-- A number has a form in as many groups as it needs. -/
theorem Leb.exists_of_lt {number groups : Nat} (hgroups : 0 < groups)
    (h : number < valueCount (7 * groups)) : ∃ bytes, Leb number bytes ∧ bytes.length ≤ groups := by
  induction groups generalizing number with
  | zero => contradiction
  | succ groups ih =>
      by_cases hsmall : number < 0x80
      · exact ⟨_, Leb.of_lt hsmall, by simp⟩
      · have hmore : 0 < groups := by
          rcases Nat.eq_zero_or_pos groups with rfl | hpositive
          · exact absurd h hsmall
          · exact hpositive
        have hhigh : number / 0x80 < valueCount (7 * groups) := by
          rw [Nat.mul_succ, valueCount_add_seven] at h
          omega
        obtain ⟨rest, hrest, hlength⟩ := ih hmore hhigh
        -- The first group has the lowest seven bits, with the mark that more follow.
        have hbyte : (UInt8.ofNat (number % 0x80 + 0x80)).toNat = number % 0x80 + 0x80 := by
          rw [UInt8.toNat_ofNat']
          omega
        have hall : Leb ((UInt8.ofNat (number % 0x80 + 0x80)).toNat - 0x80 +
            0x80 * (number / 0x80)) (UInt8.ofNat (number % 0x80 + 0x80) :: rest) :=
          .more (by omega) hrest
        rw [hbyte, show number % 0x80 + 0x80 - 0x80 + 0x80 * (number / 0x80) = number by
          omega] at hall
        exact ⟨_, hall, by simpa using hlength⟩

theorem U32.exists_of_lt {number : Nat} (h : number < valueCount 32) :
    ∃ bytes, U32 number bytes ∧ bytes.length ≤ 5 := by
  have hwide : number < valueCount (7 * 5) := Nat.lt_of_lt_of_le h (by decide)
  obtain ⟨bytes, hgroups, hlength⟩ := Leb.exists_of_lt (by decide) hwide
  exact ⟨bytes, ⟨hgroups, h, by omega⟩, hlength⟩

theorem U32.small {number : Nat} (h : number < 0x80) : U32 number [UInt8.ofNat number] :=
  ⟨Leb.of_lt h, Nat.lt_trans h (by decide), by simp⟩

theorem U32.zero : U32 0 [0x00] := U32.small (by decide)

/-- A number of seven bits can take five bytes as well. -/
theorem U32.padded {number : Nat} (h : number < 0x80) :
    U32 number [UInt8.ofNat (number + 0x80), 0x80, 0x80, 0x80, 0x00] := by
  have hbyte : (UInt8.ofNat (number + 0x80)).toNat = number + 0x80 := by
    rw [UInt8.toNat_ofNat']
    omega
  have hzeros : Leb 0 [0x80, 0x80, 0x80, 0x00] :=
    .more (b := 0x80) (by decide) (.more (b := 0x80) (by decide)
      (.more (b := 0x80) (by decide) (.last (b := 0x00) (by decide))))
  have hall := Leb.more (b := UInt8.ofNat (number + 0x80)) (by omega) hzeros
  rw [hbyte] at hall
  exact ⟨by simpa using hall, Nat.lt_trans h (by decide), by simp⟩

theorem NameForm.small {name : String} (h : name.utf8ByteSize < 0x80) :
    NameForm name (UInt8.ofNat name.utf8ByteSize :: name.toByteArray.data.toList) :=
  ⟨_, U32.small h, rfl⟩

theorem NameForm.exists_of_le {name : String} (h : name.utf8ByteSize ≤ 100000) :
    ∃ bytes, NameForm name bytes ∧ bytes.length ≤ name.utf8ByteSize + 5 := by
  have hbounded : name.utf8ByteSize < valueCount 32 := Nat.lt_of_le_of_lt h (by decide)
  obtain ⟨size, hsize, hlength⟩ := U32.exists_of_lt hbounded
  refine ⟨_, ⟨size, hsize, rfl⟩, ?_⟩
  have hcontents : name.toByteArray.data.toList.length = name.utf8ByteSize := by simp
  rw [List.length_append, hcontents]
  omega

/-- Items of which each has a short form have a short form together. -/
theorem Items.exists_of_forall {α : Type} {form : α → Bytes → Prop} {weight : α → Nat}
    {values : List α}
    (h : ∀ value ∈ values, ∃ bytes, form value bytes ∧ bytes.length ≤ weight value) :
    ∃ bytes, Items form values bytes ∧ bytes.length ≤ (values.map weight).sum := by
  induction values with
  | nil => exact ⟨[], Items.nil, by simp⟩
  | cons first rest ih =>
      obtain ⟨bytes, hfirst, hbytes⟩ := h first (by simp)
      obtain ⟨later, hrest, hlater⟩ := ih fun value hvalue =>
        h value (List.mem_cons_of_mem first hvalue)
      refine ⟨bytes ++ later, Items.cons hfirst hrest, ?_⟩
      simp only [List.length_append, List.map_cons, List.sum_cons]
      omega

/-- A list that is not too long has a section, if the items have short forms. -/
theorem PartForm.exists_of_forall {α : Type} {form : α → Bytes → Prop} (code : UInt8)
    (weight : α → Nat) {values : List α}
    (h : ∀ value ∈ values, ∃ bytes, form value bytes ∧ bytes.length ≤ weight value)
    (hcount : values.length ≤ 1000000) (hsum : (values.map weight).sum + 5 < valueCount 32) :
    ∃ bytes, PartForm code form values bytes := by
  obtain ⟨items, hitems, hlength⟩ := Items.exists_of_forall h
  have hbounded : values.length < valueCount 32 := Nat.lt_of_le_of_lt hcount (by decide)
  obtain ⟨count, hnumber, hshort⟩ := U32.exists_of_lt hbounded
  have hcontents : (count ++ items).length < valueCount 32 := by
    rw [List.length_append]
    omega
  obtain ⟨size, hsize, -⟩ := U32.exists_of_lt hcontents
  exact ⟨_, .there ⟨count, items, hnumber, hitems, rfl⟩ hsize⟩

/-- An imported entity of a kind, as plain as can be. -/
def ExternType.plain (kind : String) : ExternType :=
  if kind = "memory" then .memory ⟨⟨0, none⟩, false, false, none⟩
  else if kind = "global" then .global ⟨.i32, false⟩
  else if kind = "table" then .table ⟨.ofKind .function, ⟨0, none⟩, false, false⟩
  else if kind = "tag" then .tag ⟨[], []⟩
  else .function 0

/-- The first entity of a kind. -/
def ExternIndex.first (kind : String) : ExternIndex :=
  if kind = "memory" then .memory 0
  else if kind = "global" then .global 0
  else if kind = "table" then .table 0
  else if kind = "tag" then .tag 0
  else .function 0

/-- The kinds of what a binary can import and export. -/
def kinds : List String := ["function", "memory", "global", "table", "tag"]

theorem ExternType.word_plain {kind : String} (h : kind ∈ kinds) :
    (ExternType.plain kind).word = kind := by
  revert kind
  decide

theorem ExternIndex.word_first {kind : String} (h : kind ∈ kinds) :
    (ExternIndex.first kind).word = kind := by
  revert kind
  decide

/-- A type of functions without values takes three bytes. -/
theorem SignatureForm.plain : SignatureForm ⟨[], []⟩ [0x60, 0x00, 0x00] :=
  have hnone : Counted ValueForm [] [0x00] := ⟨[0x00], [], U32.zero, Items.nil, rfl⟩
  ⟨[0x00], [0x00], hnone, hnone, rfl⟩

theorem LimitsForm.plain : LimitsForm 32 ⟨0, none⟩ [0x00] := .least U32.zero

theorem TableForm.plain :
    TableForm ⟨.ofKind .function, ⟨0, none⟩, false, false⟩ [0x70, 0x00, 0x00] :=
  ⟨[0x70], [0x00], .ofKind .function, LimitsForm.plain, rfl⟩

theorem MemoryForm.plain : MemoryForm ⟨⟨0, none⟩, false, false, none⟩ [0x00, 0x00] :=
  ⟨[0x00], rfl, LimitsForm.plain, rfl⟩

theorem GlobalForm.plain : GlobalForm ⟨.i32, false⟩ [0x7f, 0x00] := ⟨[0x7f], .i32, rfl⟩

theorem GlobalDefForm.plain : GlobalDefForm ⟨.i32, false⟩ [0x7f, 0x00, 0x41, 0x00, 0x0b] :=
  ⟨[0x7f, 0x00], _, GlobalForm.plain, .i32, rfl⟩

theorem IndexForm.plain : IndexForm [⟨[], []⟩] 0 [0x00] := ⟨by decide, U32.zero⟩

theorem TagForm.plain : TagForm [⟨[], []⟩] ⟨[], []⟩ [0x00, 0x00] :=
  ⟨0, [0x00], rfl, U32.zero, rfl⟩

theorem BodyForm.plain : BodyForm [0x03, 0x00, 0x00, 0x0b] :=
  ⟨[0x03], [0x00], U32.small (by decide), U32.zero, rfl⟩

theorem ExternForm.exists_plain {kind : String} (h : kind ∈ kinds) :
    ∃ bytes, ExternForm [⟨[], []⟩] (.plain kind) bytes ∧ bytes.length ≤ 6 := by
  simp only [kinds, List.mem_cons, List.not_mem_nil, or_false] at h
  rcases h with rfl | rfl | rfl | rfl | rfl
  · exact ⟨_, .function IndexForm.plain, by decide⟩
  · exact ⟨_, .memory MemoryForm.plain, by decide⟩
  · exact ⟨_, .global GlobalForm.plain, by decide⟩
  · exact ⟨_, .table TableForm.plain, by decide⟩
  · exact ⟨_, .tag TagForm.plain, by decide⟩

theorem TargetForm.exists_first {kind : String} (h : kind ∈ kinds) :
    ∃ bytes, TargetForm (.first kind) bytes ∧ bytes.length ≤ 2 := by
  simp only [kinds, List.mem_cons, List.not_mem_nil, or_false] at h
  rcases h with rfl | rfl | rfl | rfl | rfl
  · exact ⟨_, .function U32.zero, by decide⟩
  · exact ⟨_, .memory U32.zero, by decide⟩
  · exact ⟨_, .global U32.zero, by decide⟩
  · exact ⟨_, .table U32.zero, by decide⟩
  · exact ⟨_, .tag U32.zero, by decide⟩

end Wasm

/-- An interface that a binary can have within the limits of the engine: the numbers of
entities and the lengths of names are limited, and so is the size of a section. -/
structure Interface.Encodable (iface : Interface) : Prop where
  importKinds : ∀ entry ∈ iface.imports, entry.kind ∈ Wasm.kinds
  exportKinds : ∀ entry ∈ iface.exports, entry.kind ∈ Wasm.kinds
  distinctNames : iface.exportNames.Nodup
  importNames : ∀ entry ∈ iface.imports,
    entry.moduleName.utf8ByteSize ≤ 100000 ∧ entry.name.utf8ByteSize ≤ 100000
  exportNames : ∀ entry ∈ iface.exports, entry.name.utf8ByteSize ≤ 100000
  importCount : iface.imports.length ≤ 1000000
  exportCount : iface.exports.length ≤ 1000000
  tableCount : (iface.imports.filter (·.kind = "table")).length ≤ 100
  memoryCount : (iface.imports.filter (·.kind = "memory")).length ≤ 100
  importSize : (iface.imports.map fun entry =>
    entry.moduleName.utf8ByteSize + entry.name.utf8ByteSize + 16).sum + 5 <
      Wasm.valueCount 32
  exportSize : (iface.exports.map fun entry => entry.name.utf8ByteSize + 7).sum + 5 <
    Wasm.valueCount 32

namespace Interface

open Wasm

/-- The defined entity of a kind, unless one is imported. -/
def definedUnlessImported {α : Type} (iface : Interface) (kind : String) (entity : α) : List α :=
  if ∃ entry ∈ iface.imports, entry.kind = kind then [] else [entity]

/-- A blueprint that lists an interface. -/
def blueprint (iface : Interface) : Blueprint where
  types := [⟨[], []⟩]
  imports := iface.imports.map fun entry =>
    ⟨entry.moduleName, entry.name, .plain entry.kind⟩
  functions := iface.definedUnlessImported "function" 0
  tables := iface.definedUnlessImported "table" ⟨.ofKind .function, ⟨0, none⟩, false, false⟩
  memories := iface.definedUnlessImported "memory" ⟨⟨0, none⟩, false, false, none⟩
  tags := iface.definedUnlessImported "tag" ⟨[], []⟩
  globals := iface.definedUnlessImported "global" ⟨.i32, false⟩
  exports := iface.exports.map fun entry => ⟨entry.name, .first entry.kind⟩

variable {iface : Interface}

theorem interface_blueprint (h : iface.Encodable) : iface.blueprint.interface = iface := by
  have hexports : iface.exports.map (fun entry =>
      (⟨entry.name, (ExternIndex.first entry.kind).word⟩ : Export)) = iface.exports := by
    refine (List.map_congr_left fun entry hentry => ?_).trans (List.map_id _)
    rw [ExternIndex.word_first (h.exportKinds entry hentry)]
    rfl
  have himports : iface.imports.map (fun entry =>
      (⟨entry.moduleName, entry.name, (ExternType.plain entry.kind).word⟩ : Import)) =
      iface.imports := by
    refine (List.map_congr_left fun entry hentry => ?_).trans (List.map_id _)
    rw [ExternType.word_plain (h.importKinds entry hentry)]
    rfl
  simp only [Blueprint.interface, blueprint, List.map_map, Function.comp_def, hexports, himports]

/-- The index space of a kind has one plain entity for each import of the kind, and one
in any case. -/
theorem space_blueprint (h : iface.Encodable) {α : Type} (project : ExternType → Option α)
    {kind : String} {entity : α}
    (hplain : ∀ word ∈ kinds,
      project (.plain word) = if word = kind then some entity else none) :
    (iface.blueprint.imports.filterMap fun decl => project decl.type) ++
        iface.definedUnlessImported kind entity =
      List.replicate (max (iface.imports.filter (·.kind = kind)).length 1) entity := by
  have himports : (iface.blueprint.imports.filterMap fun decl => project decl.type) =
      List.replicate (iface.imports.filter (·.kind = kind)).length entity := by
    rw [blueprint, List.filterMap_map]
    exact filterMap_eq_replicate fun entry hentry =>
      hplain entry.kind (h.importKinds entry hentry)
  rw [himports, definedUnlessImported]
  -- The one entity in any case is imported or, failing that, defined.
  split
  · rename_i hexists
    obtain ⟨entry, hentry, hkind⟩ := hexists
    have hpositive : 0 < (iface.imports.filter (·.kind = kind)).length :=
      List.length_pos_of_mem (List.mem_filter.2 ⟨hentry, by simpa using hkind⟩)
    rw [List.append_nil, Nat.max_eq_left hpositive]
  · rename_i hnone
    have hempty : iface.imports.filter (·.kind = kind) = [] := by
      rw [List.filter_eq_nil_iff]
      intro entry hentry hkind
      exact hnone ⟨entry, hentry, by simpa using hkind⟩
    rw [hempty]
    rfl

theorem allFunctions_blueprint (h : iface.Encodable) : iface.blueprint.allFunctions =
    List.replicate (max (iface.imports.filter (·.kind = "function")).length 1) 0 :=
  space_blueprint h ExternType.function? (by decide)

theorem allTables_blueprint (h : iface.Encodable) : iface.blueprint.allTables =
    List.replicate (max (iface.imports.filter (·.kind = "table")).length 1)
      ⟨.ofKind .function, ⟨0, none⟩, false, false⟩ :=
  space_blueprint h ExternType.table? (by decide)

theorem allMemories_blueprint (h : iface.Encodable) : iface.blueprint.allMemories =
    List.replicate (max (iface.imports.filter (·.kind = "memory")).length 1)
      ⟨⟨0, none⟩, false, false, none⟩ :=
  space_blueprint h ExternType.memory? (by decide)

theorem allGlobals_blueprint (h : iface.Encodable) : iface.blueprint.allGlobals =
    List.replicate (max (iface.imports.filter (·.kind = "global")).length 1) ⟨.i32, false⟩ :=
  space_blueprint h ExternType.global? (by decide)

theorem allTags_blueprint (h : iface.Encodable) : iface.blueprint.allTags =
    List.replicate (max (iface.imports.filter (·.kind = "tag")).length 1) ⟨[], []⟩ :=
  space_blueprint h ExternType.tag? (by decide)

theorem sized_blueprint (h : iface.Encodable) : iface.blueprint.Sized where
  distinctNames := by
    have hnames := h.distinctNames
    simpa [blueprint, exportNames, Function.comp_def] using hnames
  targetsThere := by
    intro decl hdecl
    obtain ⟨entry, hentry, rfl⟩ := List.mem_map.1 hdecl
    have hkind := h.exportKinds entry hentry
    generalize entry.kind = kind at hkind
    -- Every index space has an entity, so the first one is always there.
    have hpositive : ∀ count : Nat, 0 < max count 1 := fun count => by omega
    simp only [kinds, List.mem_cons, List.not_mem_nil, or_false] at hkind
    rcases hkind with rfl | rfl | rfl | rfl | rfl <;>
      simp [ExternIndex.first, Blueprint.Has, allFunctions_blueprint h, allTables_blueprint h,
        allMemories_blueprint h, allGlobals_blueprint h, allTags_blueprint h, hpositive]
  tagsLeaveNothing := by
    intro type htype
    rw [allTags_blueprint h] at htype
    rw [List.eq_of_mem_replicate htype]
  tablesSized := by
    intro type htype
    rw [allTables_blueprint h] at htype
    rw [List.eq_of_mem_replicate htype]
    exact ⟨by simp, rfl⟩
  memoriesSized := by
    intro type htype
    rw [allMemories_blueprint h] at htype
    rw [List.eq_of_mem_replicate htype]
    exact ⟨by simp, by simp, by simp, by simp⟩
  importNames := by
    intro decl hdecl
    obtain ⟨entry, hentry, rfl⟩ := List.mem_map.1 hdecl
    exact h.importNames entry hentry
  exportNames := by
    intro decl hdecl
    obtain ⟨entry, hentry, rfl⟩ := List.mem_map.1 hdecl
    exact h.exportNames entry hentry
  arities := by simp [blueprint]
  typeCount := by simp [blueprint]
  importCount := by simpa [blueprint] using h.importCount
  exportCount := by simpa [blueprint] using h.exportCount
  functionCount := by
    have := List.length_filter_le (fun entry : Import => entry.kind = "function") iface.imports
    have := h.importCount
    rw [allFunctions_blueprint h, List.length_replicate]
    omega
  tableCount := by
    have := h.tableCount
    rw [allTables_blueprint h, List.length_replicate]
    omega
  memoryCount := by
    have := h.memoryCount
    rw [allMemories_blueprint h, List.length_replicate]
    omega
  globalCount := by
    have := List.length_filter_le (fun entry : Import => entry.kind = "global") iface.imports
    have := h.importCount
    rw [allGlobals_blueprint h, List.length_replicate]
    omega
  tagCount := by
    have := List.length_filter_le (fun entry : Import => entry.kind = "tag") iface.imports
    have := h.importCount
    rw [allTags_blueprint h, List.length_replicate]
    omega

/-- The section of a kind can be encoded, if the entity of the kind can. -/
theorem exists_definedPart (iface : Interface) {α : Type} {form : α → Bytes → Prop}
    (code : UInt8) (kind : String) {entity : α} {bytes : Bytes} (h : form entity bytes)
    (hlength : bytes.length ≤ 100) :
    ∃ part, PartForm code form (iface.definedUnlessImported kind entity) part := by
  unfold definedUnlessImported
  split
  · exact ⟨[], .leftOut⟩
  · have hsum : 100 + 5 < valueCount 32 := by decide
    refine PartForm.exists_of_forall code (fun _ => 100) ?_ (by simp) hsum
    intro value hvalue
    rw [List.mem_singleton.1 hvalue]
    exact ⟨bytes, h, hlength⟩

theorem exists_importPart (h : iface.Encodable) :
    ∃ part, PartForm 2 (ImportForm iface.blueprint.types) iface.blueprint.imports part := by
  refine PartForm.exists_of_forall 2
    (fun decl => decl.moduleName.utf8ByteSize + decl.name.utf8ByteSize + 16) ?_
    (by simpa [blueprint] using h.importCount)
    (by simpa [blueprint, Function.comp_def] using h.importSize)
  intro decl hdecl
  obtain ⟨entry, hentry, rfl⟩ := List.mem_map.1 hdecl
  obtain ⟨hmoduleName, hname⟩ := h.importNames entry hentry
  obtain ⟨first, hfirst, hfirstLength⟩ := NameForm.exists_of_le hmoduleName
  obtain ⟨second, hsecond, hsecondLength⟩ := NameForm.exists_of_le hname
  obtain ⟨type, htype, htypeLength⟩ := ExternForm.exists_plain (h.importKinds entry hentry)
  refine ⟨_, ⟨first, second, type, hfirst, hsecond, htype, rfl⟩, ?_⟩
  simp only [List.length_append]
  omega

theorem exists_exportPart (h : iface.Encodable) :
    ∃ part, PartForm 7 ExportForm iface.blueprint.exports part := by
  refine PartForm.exists_of_forall 7 (fun decl => decl.name.utf8ByteSize + 7) ?_
    (by simpa [blueprint] using h.exportCount)
    (by simpa [blueprint, Function.comp_def] using h.exportSize)
  intro decl hdecl
  obtain ⟨entry, hentry, rfl⟩ := List.mem_map.1 hdecl
  obtain ⟨name, hname, hnameLength⟩ := NameForm.exists_of_le (h.exportNames entry hentry)
  obtain ⟨target, htarget, htargetLength⟩ :=
    TargetForm.exists_first (h.exportKinds entry hentry)
  refine ⟨_, ⟨name, target, hname, htarget, rfl⟩, ?_⟩
  simp only [List.length_append]
  omega

/-- The blueprint of an interface can be encoded. -/
theorem nonempty_encoding (h : iface.Encodable) : Nonempty iface.blueprint.Encoding := by
  obtain ⟨types, htypes⟩ : ∃ part, PartForm 1 SignatureForm [⟨[], []⟩] part :=
    PartForm.exists_of_forall 1 (fun _ => 3)
      (by simpa using ⟨_, SignatureForm.plain, by decide⟩) (by simp) (by decide)
  obtain ⟨imports, himports⟩ := exists_importPart h
  obtain ⟨functions, hfunctions⟩ :=
    iface.exists_definedPart 3 "function" IndexForm.plain (by decide)
  obtain ⟨tables, htables⟩ := iface.exists_definedPart 4 "table" TableForm.plain (by decide)
  obtain ⟨memories, hmemories⟩ := iface.exists_definedPart 5 "memory" MemoryForm.plain (by decide)
  obtain ⟨tags, htags⟩ := iface.exists_definedPart 13 "tag" TagForm.plain (by decide)
  obtain ⟨globals, hglobals⟩ := iface.exists_definedPart 6 "global" GlobalDefForm.plain (by decide)
  obtain ⟨exports, hexports⟩ := exists_exportPart h
  obtain ⟨code, hcode⟩ : ∃ part, PartForm 10 (fun _ => BodyForm) iface.blueprint.functions part :=
    iface.exists_definedPart 10 "function" BodyForm.plain (by decide)
  exact ⟨⟨types, imports, functions, tables, memories, tags, globals, exports, code, htypes,
    himports, hfunctions, htables, hmemories, htags, hglobals, hexports, hcode⟩⟩

end Interface
end ContractAdmission
