import ContractAdmission.Proofs.Wasm.Entries
import ContractAdmission.Proofs.Wasm.Growth

/-!
# How sections are framed

The bytes after a header are cut where the sections say that they end, and the sections
of a binary that is accepted stand in the standard order.  What a module lists is then
what stands in one of them.

* `FrameForm` — the byte that announces a section, its size, and its contents, with no
  reader in it; `sectionForm_iff_frameForm` says that sections are read in this form.
* `Module.order_of_run` — the order of the sections along a run, from that of one step.
* `Module.BelongsTo.lists_of_run` — what is listed at the end of a run stands in the
  section to which the list belongs.
-/

namespace ContractAdmission
namespace Wasm

open Reader

/-- The byte that announces a section. -/
def SectionId.byte : SectionId → UInt8
  | .custom => 0x00
  | .types => 0x01
  | .imports => 0x02
  | .functions => 0x03
  | .tables => 0x04
  | .memories => 0x05
  | .globals => 0x06
  | .exports => 0x07
  | .start => 0x08
  | .elements => 0x09
  | .code => 0x0a
  | .data => 0x0b
  | .dataCount => 0x0c
  | .tags => 0x0d

theorem SectionId.ofByte?_byte (id : SectionId) : ofByte? id.byte = some id := by
  cases id <;> rfl

theorem SectionId.byte_injective {id id' : SectionId} (h : id.byte = id'.byte) : id = id' := by
  have hread := congrArg ofByte? h
  rw [ofByte?_byte, ofByte?_byte] at hread
  exact Option.some.inj hread

theorem SectionId.byte_eq_of_ofByte? {b : UInt8} {id : SectionId} (h : ofByte? b = some id) :
    b = id.byte := by
  -- Sections are listed in the order of their bytes.
  obtain ⟨hless, hplace⟩ := List.getElem?_eq_some_iff.1 h
  have hall : ∀ place (hplace : place < all.length), place = all[place].byte.toNat := by decide
  have hvalue := hall b.toNat hless
  rw [hplace] at hvalue
  exact UInt8.toNat_inj.1 hvalue

/-- A section as it is framed: the byte in front of it, which need not announce anything
that is known, and its contents. -/
abbrev Framed := UInt8 × Bytes

/-- Bytes that stand for a framed section: the byte in front, the number of bytes of the
contents, and the contents. -/
def FrameForm (framed : Framed) (bytes : Bytes) : Prop :=
  ∃ size, U32 framed.2.length size ∧ bytes = framed.1 :: (size ++ framed.2)

/-- The frame of a section. -/
def Section.framed (part : Section) : Framed := (part.id.byte, part.contents)

/-- A section is read in a frame. -/
theorem Section.sound_read : Sound Section.read fun part bytes => FrameForm part.framed bytes := by
  refine Sound.byte_bind fun b => ?_
  cases hid : SectionId.ofByte? b with
  | none => exact Sound.refuse
  | some id =>
      obtain rfl : b = id.byte := SectionId.byte_eq_of_ofByte? hid
      have hsized : Sound (do
            let size ← u32
            let contents ← take size
            return (⟨id, contents⟩ : Section)) fun part bytes =>
          FrameForm part.framed (id.byte :: bytes) := by
        refine sound_u32.bind fun count size hsize => (sound_take count).bind ?_
        rintro contents front ⟨rfl, hcount⟩
        subst hcount
        exact Sound.pure ⟨size, hsize, by rw [List.append_nil]; rfl⟩
      exact hsized

/-- The bytes that stand for a section are those of its frame. -/
theorem sectionForm_iff_frameForm {part : Section} {bytes : Bytes} :
    SectionForm part bytes ↔ FrameForm part.framed bytes := by
  constructor
  · intro h
    obtain ⟨front, hfront, hform⟩ := Section.sound_read (bytes ++ []) part [] (h [])
    obtain rfl : bytes = front := List.append_cancel_right hfront
    exact hform
  · rintro ⟨size, hsize, rfl⟩
    refine Reads.byte_bind ?_
    rw [Section.framed, SectionId.ofByte?_byte]
    exact (Reads.expect part.id).bind
      (hsize.reads_u32.bind ((Reads.take rfl).last (Reads.pure part)))

/-- Items that are told by other things the bytes stand for these. -/
theorem items_map_iff {α β : Type} {form : β → Bytes → Prop} {f : α → β} {values : List α}
    {bytes : Bytes} :
    Items form (values.map f) bytes ↔ Items (fun value => form (f value)) values bytes := by
  constructor
  · intro h
    generalize hall : values.map f = all at h
    induction h generalizing values with
    | nil =>
        obtain rfl := List.map_eq_nil_iff.1 hall
        exact .nil
    | cons head tail ih =>
        obtain ⟨first, rest, rfl, rfl, hrest⟩ := List.map_eq_cons_iff.1 hall
        exact .cons head (ih hrest)
  · intro h
    induction h with
    | nil => exact .nil
    | cons head tail ih => exact .cons head ih

/-- The bytes that consist of sections consist of their frames. -/
theorem items_sectionForm_iff {parts : List Section} {bytes : Bytes} :
    Items SectionForm parts bytes ↔ Items FrameForm (parts.map (·.framed)) bytes := by
  have hform : SectionForm = fun part => FrameForm part.framed := by
    funext part bytes
    exact propext sectionForm_iff_frameForm
  rw [items_map_iff, hform]

/-- The size of a section says where it ends. -/
theorem determinate_frame : Determinate FrameForm := by
  rintro ⟨b, contents⟩ ⟨b', contents'⟩ - - rest rest' ⟨size, hsize, rfl⟩ ⟨size', hsize', rfl⟩ h
  simp only [List.cons_append, List.append_assoc] at h
  obtain ⟨rfl, hafter⟩ := List.cons.inj h
  obtain ⟨hlength, rfl, hcontents⟩ := determinate_u32 hsize hsize' hafter
  obtain ⟨rfl, rfl⟩ := List.append_inj hcontents hlength
  exact ⟨rfl, rfl, rfl⟩

/-- A part of the order from a place on begins with the section of that place. -/
theorem SectionId.drop_rank {id : SectionId} (h : id ≠ .custom) :
    order.drop id.rank = id :: order.drop (id.rank + 1) := by
  revert h
  cases id <;> decide

namespace Module

variable {engine : Engine} {module next : Module} {parts : List Section}

/-- The sections that a run meets, other than custom ones, are some of those whose places
are still open, each once and in the order. -/
theorem order_of_run (h : parts.foldlM (addSection engine) module = some next) :
    ((parts.map (·.id)).filter (· ≠ .custom)).Sublist (SectionId.order.drop module.closed) := by
  induction parts generalizing module with
  | nil => exact List.nil_sublist _
  | cons part rest ih =>
      rw [List.foldlM_cons] at h
      obtain ⟨middle, hmiddle, hrest⟩ := Option.bind_eq_some_iff.1 h
      have hlater := ih hrest
      rcases addSection_eq_some_iff.1 hmiddle with ⟨hid, -, rfl⟩ | ⟨hid, hplace, read, -, rfl⟩
      · simpa [hid] using hlater
      · -- Its place is open still, and it closes all the places up to its own.
        have hopen : (SectionId.order.drop part.id.rank).Sublist
            (SectionId.order.drop module.closed) := List.drop_sublist_drop_left _ hplace
        rw [SectionId.drop_rank hid] at hopen
        rw [List.map_cons, List.filter_cons_of_pos (by simpa using hid)]
        exact (hlater.cons_cons part.id).trans hopen

variable {α : Type} {list : Module → α} {id : SectionId}

/-- Without its section a list is what it was at the beginning. -/
theorem BelongsTo.eq_of_absent (h : BelongsTo engine list id) (habsent : ∀ part ∈ parts, part.id ≠ id)
    (hrun : parts.foldlM (addSection engine) module = some next) : list next = list module := by
  induction parts generalizing module with
  | nil =>
      cases hrun
      rfl
  | cons part rest ih =>
      rw [List.foldlM_cons] at hrun
      obtain ⟨middle, hmiddle, hrest⟩ := Option.bind_eq_some_iff.1 hrun
      rw [ih (fun part hpart => habsent part (List.mem_cons_of_mem _ hpart)) hrest,
        h module part middle hmiddle (habsent part (by simp))]

/-- A list is at the end what was read of the contents of its section, by a module in which
it was as at the beginning. -/
theorem BelongsTo.exists_read_of_run (h : BelongsTo engine list id) (hid : id ≠ .custom)
    (hrun : parts.foldlM (addSection engine) module = some next) {part : Section}
    (hpart : part ∈ parts) (hsection : part.id = id) :
    ∃ before read, exactly (before.sectionContents engine id) part.contents = some read ∧
      list before = list module ∧ list next = list { read with closed := id.rank + 1 } := by
  obtain ⟨front, back, rfl⟩ := List.append_of_mem hpart
  rw [List.foldlM_append] at hrun
  obtain ⟨before, hfront, hfrom⟩ := Option.bind_eq_some_iff.1 hrun
  rw [List.foldlM_cons] at hfrom
  obtain ⟨after, hmiddle, hback⟩ := Option.bind_eq_some_iff.1 hfrom
  subst hsection
  rcases addSection_eq_some_iff.1 hmiddle with ⟨hcustom, -, -⟩ | ⟨-, hplace, read, hread, rfl⟩
  · exact absurd hcustom hid
  · -- No section before this one adds to the list, and none may after it.
    exact ⟨before, read, hread, h.eq_of_open hid hplace hfront,
      h.eq_of_closed hid (Nat.lt_succ_self _) hback⟩

end Module

/-- The sections of a kind list the entries: each of them stands for the entries, and
without any there are none. -/
def Section.Lists {α : Type} (form : α → Bytes → Prop) (id : SectionId) (parts : List Section)
    (entries : List α) : Prop :=
  (∀ part ∈ parts, part.id = id → Counted form entries part.contents) ∧
    ((∀ part ∈ parts, part.id ≠ id) → entries = [])

namespace Module

variable {engine : Engine} {parts : List Section} {last : Module}

/-- A list that is read of the contents of its section stands there at the end of a run. -/
theorem BelongsTo.lists_of_run {α β : Type} {f : α → Option β} {form : β → Bytes → Prop}
    {list : Module → List α} {id : SectionId} (h : BelongsTo engine list id) (hid : id ≠ .custom)
    (hnone : list {} = [])
    (hclosed : ∀ (module : Module) (closed : Nat),
      list { module with closed := closed } = list module)
    (hsound : ∀ before : Module, list before = [] →
      Sound (before.sectionContents engine id) fun next bytes =>
        Counted (fun decl part => ∀ entry, f decl = some entry → form entry part)
          (list next) bytes)
    (hrun : parts.foldlM (addSection engine) {} = some last) {entries : List β}
    (hlisted : (list last).mapM f = some entries) : Section.Lists form id parts entries := by
  constructor
  · intro part hpart hsection
    obtain ⟨before, read, hread, hbefore, hlast⟩ :=
      h.exists_read_of_run hid hrun hpart hsection
    have hform := (hsound before (hbefore.trans hnone)).exactly hread
    rw [← hlast.trans (hclosed read _)] at hform
    exact hform.listed hlisted
  · intro habsent
    rw [h.eq_of_absent habsent hrun, hnone] at hlisted
    cases hlisted
    rfl

/-- What an accepted binary lists as imports stands in its section of imports. -/
theorem lists_imports {entries : List Import}
    (hrun : parts.foldlM (addSection engine) {} = some last)
    (hlisted : last.imports.mapM (·.listed?) = some entries) :
    Section.Lists ImportEntryForm .imports parts entries := by
  refine imports_belongTo.lists_of_run (by decide) rfl (fun _ _ => rfl) ?_ hrun hlisted
  intro before hnone
  refine (sound_importSection engine before).weaken ?_
  rintro next bytes ⟨decls, hdecls, hform⟩
  rwa [hdecls, hnone, List.nil_append]

/-- What an accepted binary lists as exports stands in its section of exports. -/
theorem lists_exports {entries : List Export}
    (hrun : parts.foldlM (addSection engine) {} = some last)
    (hlisted : last.exports.mapM (·.listed?) = some entries) :
    Section.Lists ExportEntryForm .exports parts entries := by
  refine exports_belongTo.lists_of_run (by decide) rfl (fun _ _ => rfl) ?_ hrun hlisted
  exact fun before _ => (sound_exportSection before).weaken fun _ _ h => h.2

/-- The names of the exports of an accepted binary are distinct. -/
theorem nodup_exports (hrun : parts.foldlM (addSection engine) {} = some last) :
    (last.exports.map (·.name)).Nodup := by
  by_cases hpresent : ∃ part ∈ parts, part.id = .exports
  · obtain ⟨part, hpart, hid⟩ := hpresent
    obtain ⟨before, read, hread, -, hlast⟩ :=
      exports_belongTo.exists_read_of_run (by decide) hrun hpart hid
    rw [show last.exports = read.exports from hlast]
    exact ((sound_exportSection before).exactly hread).1
  · have habsent : ∀ part ∈ parts, part.id ≠ .exports := by simpa using hpresent
    have hnone : last.exports = [] := exports_belongTo.eq_of_absent habsent hrun
    rw [hnone]
    exact List.nodup_nil

end Module
end Wasm
end ContractAdmission
