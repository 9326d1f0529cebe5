import ContractAdmission.Proofs.Wasm.TypeForms

/-!
# Entries of the sections of imports and exports

Which bytes stand for an entry of an interface: names, the byte of a kind, and what the
kind asks for.  Only what an interface lists has a form here, so there is none for tags.

* `ImportEntryForm`, `ExportEntryForm` — the format, which mentions no reader.
* `determinate_importEntry`, `determinate_exportEntry` — bytes stand for one entry at most,
  so a section stands for one list of entries at most.
* `sound_importDecl`, `sound_exportDecl` — what is read of a section is what stands there.
-/

namespace ContractAdmission

/-- The byte that stands for a kind of entity. -/
def ExternKind.code : ExternKind → UInt8
  | .function => 0x00
  | .table => 0x01
  | .memory => 0x02
  | .global => 0x03

theorem ExternKind.code_injective {kind kind' : ExternKind} (h : kind.code = kind'.code) :
    kind = kind' := by
  revert h
  cases kind <;> cases kind' <;> decide

namespace Wasm

open Reader

/-- Bytes that describe an imported entity of a kind.  A function goes by the index of its
type. -/
def Described : ExternKind → Bytes → Prop
  | .function, bytes => ∃ index, U32 index bytes
  | .table, bytes => TableBytes bytes
  | .memory, bytes => MemoryBytes bytes
  | .global, bytes => GlobalBytes bytes

/-- Bytes that stand for an import: two names, the kind, and a description. -/
def ImportEntryForm (entry : Import) (bytes : Bytes) : Prop :=
  ∃ kind moduleName name description, entry.kind = ExternKind.label kind ∧
    NameForm entry.moduleName moduleName ∧ NameForm entry.name name ∧
    Described kind description ∧ bytes = moduleName ++ (name ++ kind.code :: description)

/-- Bytes that stand for an export: its name, the kind, and an index. -/
def ExportEntryForm (entry : Export) (bytes : Bytes) : Prop :=
  ∃ kind name index place, entry.kind = ExternKind.label kind ∧ NameForm entry.name name ∧
    U32 index place ∧ bytes = name ++ kind.code :: place

theorem prefixFree_described (kind : ExternKind) : PrefixFree (Described kind) := by
  cases kind with
  | function => exact determinate_u32.prefixFree
  | table => exact prefixFree_tableBytes
  | memory => exact prefixFree_memoryBytes
  | global => exact prefixFree_globalBytes

/-- Bytes begin with an import in one way at most. -/
theorem determinate_importEntry : Determinate ImportEntryForm := by
  rintro ⟨moduleText, text, word⟩ ⟨moduleText', text', word'⟩ - - rest rest'
    ⟨kind, moduleName, name, description, rfl, hmodule, hname, hdescribed, rfl⟩
    ⟨kind', moduleName', name', description', rfl, hmodule', hname', hdescribed', rfl⟩ heq
  simp only [List.append_assoc, List.cons_append] at heq
  obtain ⟨rfl, rfl, hfirst⟩ := determinate_name hmodule hmodule' heq
  obtain ⟨rfl, rfl, hsecond⟩ := determinate_name hname hname' hfirst
  obtain ⟨hkind, hthird⟩ := List.cons.inj hsecond
  obtain rfl := ExternKind.code_injective hkind
  obtain ⟨rfl, rfl⟩ := prefixFree_described kind hdescribed hdescribed' hthird
  exact ⟨rfl, rfl, rfl⟩

/-- Bytes begin with an export in one way at most. -/
theorem determinate_exportEntry : Determinate ExportEntryForm := by
  rintro ⟨text, word⟩ ⟨text', word'⟩ - - rest rest'
    ⟨kind, name, index, place, rfl, hname, hplace, rfl⟩
    ⟨kind', name', index', place', rfl, hname', hplace', rfl⟩ heq
  simp only [List.append_assoc, List.cons_append] at heq
  obtain ⟨rfl, rfl, hfirst⟩ := determinate_name hname hname' heq
  obtain ⟨hkind, hsecond⟩ := List.cons.inj hfirst
  obtain rfl := ExternKind.code_injective hkind
  obtain ⟨-, rfl, rfl⟩ := determinate_u32 hplace hplace' hsecond
  exact ⟨rfl, rfl, rfl⟩

variable {α : Type} (engine : Engine) (module : Module)

/-- What follows the byte of a kind describes an entity of the kind, if one is listed. -/
theorem sound_described {reader : Reader α} {wrap : α → ExternType} (kind : ExternKind)
    {b : UInt8} (hb : b.toNat = kind.code.toNat) (h : Sound reader fun _ bytes => Described kind bytes)
    (hkind : ∀ value, (wrap value).kind? = some kind) :
    Sound (reader >>= fun value => pure (wrap value)) fun type back =>
      ∀ listed, type.kind? = some listed →
        ∃ description, Described listed description ∧ b :: back = listed.code :: description := by
  obtain rfl : b = kind.code := UInt8.toNat_inj.1 hb
  refine h.bind fun value description hdescribed => Sound.pure ?_
  intro listed hlisted
  obtain rfl : kind = listed := Option.some.inj ((hkind value).symm.trans hlisted)
  exact ⟨description, hdescribed, by rw [List.append_nil]⟩

theorem sound_functionIndexType :
    Sound module.functionIndexType fun index bytes => U32 index bytes := by
  refine sound_u32.bind fun index bytes h => Sound.required fun _ => Sound.pure ?_
  rwa [List.append_nil]

theorem sound_admittedTable :
    Sound (module.tableType engine) fun _ bytes => TableBytes bytes := by
  refine (sound_tableType module.types).bind fun _ bytes h => Sound.required fun _ =>
    Sound.pure ?_
  rwa [List.append_nil]

theorem sound_admittedMemory : Sound (Module.memoryType engine) fun _ bytes => MemoryBytes bytes := by
  refine sound_memoryType.bind fun _ bytes h => Sound.required fun _ => Sound.pure ?_
  rwa [List.append_nil]

/-- A tag takes a front part of the bytes, whatever stands there. -/
theorem sound_tagType : Sound module.tagType fun _ _ => True := by
  have hfunction : Sound module.functionType fun _ _ => True :=
    sound_u32.bind fun _ _ _ => Sound.expect fun _ _ => trivial
  exact Sound.byte_bind fun _ => Sound.required fun _ => hfunction.bind fun _ _ _ =>
    Sound.required fun _ => Sound.pure trivial

/-- What is read of an imported entity is described by the bytes after its kind, if it is
listed at all. -/
theorem sound_externType :
    Sound (module.externType engine) fun type bytes => ∀ listed, type.kind? = some listed →
      ∃ description, Described listed description ∧ bytes = listed.code :: description := by
  refine Sound.byte_bind fun b => ?_
  split
  · have hindex := (sound_functionIndexType module).weaken fun index bytes h =>
      (⟨index, h⟩ : Described .function bytes)
    exact sound_described .function ‹_› hindex fun _ => rfl
  · exact sound_described .table ‹_› (sound_admittedTable engine module) fun _ => rfl
  · exact sound_described .memory ‹_› (sound_admittedMemory engine) fun _ => rfl
  · exact sound_described .global ‹_› (sound_globalType module.types) fun _ => rfl
  · -- No kind is listed for a tag.
    refine (sound_tagType module).bind fun type _ _ => Sound.pure ?_
    intro listed hlisted
    cases hlisted
  · exact Sound.refuse

/-- What is read of an import that is listed is the entry in the list. -/
theorem sound_importDecl :
    Sound (module.importDecl engine) fun decl bytes =>
      ∀ entry, decl.listed? = some entry → ImportEntryForm entry bytes := by
  refine sound_name.bind fun moduleText moduleName hmodule => sound_name.bind fun text name hname => ?_
  refine (sound_externType engine module).bind fun type entity hentity => Sound.pure ?_
  intro entry hlisted
  obtain ⟨kind, hkind, rfl⟩ := Option.map_eq_some_iff.1 hlisted
  obtain ⟨description, hdescribed, rfl⟩ := hentity kind hkind
  exact ⟨kind, moduleName, name, description, rfl, hmodule.2, hname.2, hdescribed,
    by rw [List.append_nil]⟩

theorem sound_externIndex :
    Sound Module.externIndex fun target bytes => ∀ listed, target.kind? = some listed →
      ∃ index place, U32 index place ∧ bytes = listed.code :: place := by
  refine Sound.byte_bind fun b => sound_u32.bind fun index place hplace => ?_
  have htarget : ∀ (target : ExternIndex) (kind : ExternKind), b.toNat = kind.code.toNat →
      target.kind? = some kind → Sound (pure target) fun target back =>
        ∀ listed, target.kind? = some listed →
          ∃ index number, U32 index number ∧ b :: (place ++ back) = listed.code :: number := by
    intro target kind hb hkind
    refine Sound.pure fun listed hlisted => ?_
    obtain rfl : b = kind.code := UInt8.toNat_inj.1 hb
    obtain rfl : kind = listed := Option.some.inj (hkind.symm.trans hlisted)
    exact ⟨index, place, hplace, by rw [List.append_nil]⟩
  split
  · exact htarget _ .function ‹_› rfl
  · exact htarget _ .table ‹_› rfl
  · exact htarget _ .memory ‹_› rfl
  · exact htarget _ .global ‹_› rfl
  · refine Sound.pure fun listed hlisted => ?_
    cases hlisted
  · exact Sound.refuse

/-- What is read of an export that is listed is the entry in the list. -/
theorem sound_exportDecl :
    Sound module.exportDecl fun decl bytes =>
      ∀ entry, decl.listed? = some entry → ExportEntryForm entry bytes := by
  refine sound_name.bind fun text name hname => sound_externIndex.bind fun target place hplace => ?_
  refine Sound.required fun _ => Sound.pure ?_
  intro entry hlisted
  obtain ⟨kind, hkind, rfl⟩ := Option.map_eq_some_iff.1 hlisted
  obtain ⟨index, number, hnumber, rfl⟩ := hplace kind hkind
  exact ⟨kind, name, index, number, rfl, hname.2, hnumber, by rw [List.append_nil]⟩

/-- Bytes that stand for what is declared stand for what is listed of it. -/
theorem Items.listed {α β : Type} {f : α → Option β} {form : β → Bytes → Prop} {decls : List α}
    {entries : List β} {bytes : Bytes}
    (h : Items (fun decl part => ∀ entry, f decl = some entry → form entry part) decls bytes)
    (hlisted : entries.map some = decls.map f) : Items form entries bytes := by
  induction h generalizing entries with
  | nil =>
      obtain rfl := List.map_eq_nil_iff.1 hlisted
      exact .nil
  | cons head tail ih =>
      obtain ⟨first, rest, rfl, hfirst, hrest⟩ := List.map_eq_cons_iff.1 hlisted
      exact .cons (head first hfirst.symm) (ih hrest)

theorem Counted.listed {α β : Type} {f : α → Option β} {form : β → Bytes → Prop}
    {decls : List α} {entries : List β} {bytes : Bytes}
    (h : Counted (fun decl part => ∀ entry, f decl = some entry → form entry part) decls bytes)
    (hlisted : decls.mapM f = some entries) : Counted form entries bytes := by
  obtain ⟨count, items, hcount, hitems, rfl⟩ := h
  have hall := map_some_of_mapM hlisted
  have hlength : entries.length = decls.length := by simpa using congrArg List.length hall
  exact ⟨count, items, hlength ▸ hcount, hitems.listed hall, rfl⟩

/-- The section of imports adds what its contents declare. -/
theorem sound_importSection :
    Sound (module.importSection engine) fun next bytes =>
      ∃ decls, next.imports = module.imports ++ decls ∧
        Counted (fun decl part => ∀ entry, decl.listed? = some entry → ImportEntryForm entry part)
          decls bytes := by
  refine (sound_vector (sound_importDecl engine module) maxEntities).bind fun decls bytes hdecls =>
    Sound.required fun _ => Sound.pure ?_
  rw [List.append_nil]
  exact ⟨decls, rfl, hdecls.2⟩

/-- The section of exports lists what its contents declare, under distinct names. -/
theorem sound_exportSection :
    Sound module.exportSection fun next bytes =>
      (next.exports.map (·.name)).Nodup ∧
        Counted (fun decl part => ∀ entry, decl.listed? = some entry → ExportEntryForm entry part)
          next.exports bytes := by
  refine (sound_vector (sound_exportDecl module) maxEntities).bind fun decls bytes hdecls =>
    Sound.required fun hdistinct => Sound.pure ?_
  rw [List.append_nil]
  exact ⟨allDistinct_iff_nodup.1 hdistinct, hdecls.2⟩

end Wasm
end ContractAdmission
