import ContractAdmission.Proofs.AcceptedBinaries

/-!
# Only two sections reach the verdict

Two accepted binaries with the same section of imports and the same section of exports
have the same interface, and so the same verdict under every request, whatever else is in
them.  A custom section between two others changes nothing at all.

* `Wasm.Section.contents?` — what stands in the section of a kind.
* `Wasm.Section.Lists.eq_of_contents` — the contents of a section say what it lists.
* `Wasm.Module.decode_insert` — a custom section is passed over, wherever it stands.
-/

namespace ContractAdmission
namespace Wasm

/-- The contents of the first section of a kind in a binary. -/
def Section.contents? (id : SectionId) (bytes : Bytes) : Option Bytes :=
  (split bytes).bind fun parts => (parts.find? (·.id = id)).map (·.contents)

/-- Sections of a kind with the same contents, or with none, list the same entries. -/
theorem Section.Lists.eq_of_contents {α : Type} {form : α → Bytes → Prop} {id : SectionId}
    {parts parts' : List Section} {entries entries' : List α} (hform : Determinate form)
    (h : Section.Lists form id parts entries) (h' : Section.Lists form id parts' entries')
    (hcontents : (parts.find? (·.id = id)).map (·.contents) =
      (parts'.find? (·.id = id)).map (·.contents)) : entries = entries' := by
  cases hfound : parts.find? (·.id = id) with
  | none =>
      rw [hfound, Option.map_none, eq_comm, Option.map_eq_none_iff] at hcontents
      have habsent : ∀ part ∈ parts, part.id ≠ id := by simpa using hfound
      have habsent' : ∀ part ∈ parts', part.id ≠ id := by simpa using hcontents
      rw [h.2 habsent, h'.2 habsent']
  | some part =>
      rw [hfound, Option.map_some, eq_comm, Option.map_eq_some_iff] at hcontents
      obtain ⟨part', hfound', hsame⟩ := hcontents
      have hcounted := h.1 part (List.mem_of_find?_eq_some hfound)
        (by simpa using List.find?_some hfound)
      have hcounted' := h'.1 part' (List.mem_of_find?_eq_some hfound')
        (by simpa using List.find?_some hfound')
      rw [hsame] at hcounted'
      exact hform.eq_of_counted hcounted hcounted'

/-- An accepted binary has sections that list its interface. -/
theorem exists_sections_of_compile {engine : Engine} {bytes : Bytes} {iface : Interface}
    (h : compile engine bytes = .ok iface) :
    ∃ parts, Section.split bytes = some parts ∧ iface.ReadFrom parts := by
  obtain ⟨module, hdecode, hiface⟩ := exists_module_of_compile h
  obtain ⟨body, parts, rfl, hbody, hrun, -⟩ := Module.decode_eq_some_iff.1 hdecode
  exact ⟨parts, Section.split_eq_some_iff.2 ⟨body, rfl, hbody⟩, readFrom_of_run hrun hiface⟩

/-- The interface of an accepted binary is a function of the contents of two sections. -/
theorem eq_of_contents {engine engine' : Engine} {bytes bytes' : Bytes}
    {iface iface' : Interface} (h : compile engine bytes = .ok iface)
    (h' : compile engine' bytes' = .ok iface')
    (himports : Section.contents? .imports bytes = Section.contents? .imports bytes')
    (hexports : Section.contents? .exports bytes = Section.contents? .exports bytes') :
    iface = iface' := by
  obtain ⟨parts, hsplit, hread⟩ := exists_sections_of_compile h
  obtain ⟨parts', hsplit', hread'⟩ := exists_sections_of_compile h'
  have hcontents : ∀ id, Section.contents? id bytes = Section.contents? id bytes' →
      (parts.find? (·.id = id)).map (·.contents) =
        (parts'.find? (·.id = id)).map (·.contents) := by
    intro id hsame
    simpa only [Section.contents?, hsplit, hsplit', Option.bind_some] using hsame
  -- Each list has its own section, so the two are compared one by one.
  obtain ⟨exports, imports⟩ := iface
  obtain ⟨exports', imports'⟩ := iface'
  obtain rfl : imports = imports' :=
    hread.imports.eq_of_contents determinate_importEntry hread'.imports
      (hcontents .imports himports)
  obtain rfl : exports = exports' :=
    hread.exports.eq_of_contents determinate_exportEntry hread'.exports
      (hcontents .exports hexports)
  rfl

/-! ### Custom sections -/

/-- Sections of the same frame are the same. -/
theorem Section.framed_injective {part part' : Section} (h : part.framed = part'.framed) :
    part = part' := by
  obtain ⟨id, contents⟩ := part
  obtain ⟨id', contents'⟩ := part'
  obtain ⟨hid, rfl⟩ := Prod.mk.inj h
  obtain rfl : id = id' := SectionId.byte_injective hid
  rfl

/-- Where bytes begin with frames, the sections of which they consist begin with those of
these frames. -/
theorem exists_split_of_frames {frames : List Framed} {parts : List Section}
    {front rest : Bytes} (hfront : Items FrameForm frames front)
    (h : Items SectionForm parts (front ++ rest)) :
    ∃ before after, parts = before ++ after ∧ before.map (·.framed) = frames ∧
      Items SectionForm after rest := by
  have hsome : ∀ framed, ¬ FrameForm framed [] := by
    rintro framed ⟨size, -, hempty⟩
    cases hempty
  obtain ⟨others, hparts, hothers⟩ :=
    determinate_frame.exists_append_of_prefix hsome hfront (items_sectionForm_iff.1 h)
  obtain ⟨before, after, rfl, hbefore, rfl⟩ := List.map_eq_append_iff.1 hparts
  exact ⟨before, after, rfl, hbefore, items_sectionForm_iff.2 hothers⟩

/-- The bytes of a custom section whose name means nothing. -/
def CustomForm (bytes : Bytes) : Prop :=
  ∃ title name payload, title ∉ Module.retiredNames ∧ title.utf8ByteSize ≤ 100000 ∧
    NameForm title name ∧ FrameForm (0x00, name ++ payload) bytes

namespace Module

variable {engine : Engine}

/-- A custom section whose name means nothing leaves every module as it is. -/
theorem addSection_custom {title : String} {name payload : Bytes} (htitle : title ∉ retiredNames)
    (hsize : title.utf8ByteSize ≤ 100000) (hname : NameForm title name) (module : Module) :
    module.addSection engine ⟨.custom, name ++ payload⟩ = some module := by
  have hread : Reader.name (name ++ payload) = some (title, payload) := hname.reads hsize payload
  have hcustom : customSection (name ++ payload) = true := by
    rw [customSection, hread]
    exact decide_eq_true htitle
  exact addSection_eq_some_iff.2 (Or.inl ⟨rfl, hcustom, rfl⟩)

/-- Sections make the same module with one among them that leaves every module as it is. -/
theorem foldlM_insert {part : Section}
    (hpart : ∀ module : Module, module.addSection engine part = some module)
    (before after : List Section) (module : Module) :
    (before ++ part :: after).foldlM (addSection engine) module =
      (before ++ after).foldlM (addSection engine) module := by
  rw [List.foldlM_append, List.foldlM_append]
  congr 1
  funext middle
  rw [List.foldlM_cons, hpart, Option.bind_eq_bind, Option.bind_some]

/-- A custom section after some frames has no part in what a binary declares. -/
theorem decode_insert {frames : List Framed} {front custom : Bytes}
    (hfront : Items FrameForm frames front) (hcustom : CustomForm custom) (rest : Bytes) :
    decode engine (header ++ (front ++ (custom ++ rest))) =
      decode engine (header ++ (front ++ rest)) := by
  obtain ⟨title, name, payload, htitle, hsize, hname, hframe⟩ := hcustom
  have hkept : ∀ module : Module,
      module.addSection engine ⟨.custom, name ++ payload⟩ = some module :=
    addSection_custom htitle hsize hname
  have hsection : SectionForm ⟨.custom, name ++ payload⟩ custom :=
    sectionForm_iff_frameForm.2 hframe
  refine Option.ext fun module => ?_
  rw [decode_eq_some_iff, decode_eq_some_iff]
  constructor
  · -- The inserted section is one of those that are read, since the frames end before it.
    rintro ⟨body, parts, hbytes, hbody, hrun, hcomplete⟩
    obtain rfl := List.append_cancel_left hbytes
    obtain ⟨before, others, rfl, rfl, hothers⟩ := exists_split_of_frames hfront hbody
    obtain ⟨inserted, after, rfl, hinserted, hafter⟩ :=
      exists_split_of_frames (Items.single hframe) hothers
    obtain rfl : inserted = [⟨.custom, name ++ payload⟩] :=
      List.map_injective_iff.2 (fun _ _ => Section.framed_injective) hinserted
    refine ⟨_, before ++ after, rfl, (items_sectionForm_iff.2 hfront).append hafter, ?_, hcomplete⟩
    rwa [List.singleton_append, foldlM_insert hkept] at hrun
  · -- The frames are sections, since the bytes without the inserted one are read.
    rintro ⟨body, parts, hbytes, hbody, hrun, hcomplete⟩
    obtain rfl := List.append_cancel_left hbytes
    obtain ⟨before, after, rfl, rfl, hafter⟩ := exists_split_of_frames hfront hbody
    refine ⟨_, before ++ ⟨.custom, name ++ payload⟩ :: after, rfl,
      (items_sectionForm_iff.2 hfront).append (.cons hsection hafter), ?_, hcomplete⟩
    rwa [foldlM_insert hkept]

end Module

/-- Bytes after the header are compiled as they are decoded. -/
theorem compile_congr {engine : Engine} {body body' : Bytes}
    (h : Module.decode engine (header ++ body) = Module.decode engine (header ++ body')) :
    compile engine (header ++ body) = compile engine (header ++ body') := by
  have hmagic : ∀ body, magic.isPrefixOf (header ++ body) = true := fun _ => rfl
  rw [compile, compile, if_pos (hmagic body), if_pos (hmagic body'), h]

end Wasm

/-- **Nothing but the sections of imports and exports reaches the verdict.**

Accepted binaries with the same contents of these two sections, or without them, have the
same interface, and under every request the same verdict, error and log.  A custom section
after any number of framed sections, with a name that means nothing and any payload,
changes neither whether a binary is accepted nor its interface. -/
theorem only_listed_sections_matter :
    (∀ engine engine' bytes bytes' iface iface', Wasm.compile engine bytes = .ok iface →
      Wasm.compile engine' bytes' = .ok iface' →
      Wasm.Section.contents? .imports bytes = Wasm.Section.contents? .imports bytes' →
      Wasm.Section.contents? .exports bytes = Wasm.Section.contents? .exports bytes' →
      iface = iface' ∧
        ∀ request, validate bytes request engine = validate bytes' request engine') ∧
    (∀ engine frames front custom rest, Wasm.Items Wasm.FrameForm frames front →
      Wasm.CustomForm custom →
      Wasm.compile engine (Wasm.header ++ (front ++ (custom ++ rest))) =
        Wasm.compile engine (Wasm.header ++ (front ++ rest))) := by
  constructor
  · intro engine engine' bytes bytes' iface iface' h h' himports hexports
    obtain rfl := Wasm.eq_of_contents h h' himports hexports
    refine ⟨rfl, fun request => ?_⟩
    rw [validate_of_compile h, validate_of_compile h']
  · intro engine frames front custom rest hfront hcustom
    exact Wasm.compile_congr (Wasm.Module.decode_insert hfront hcustom rest)

/-- The least contract has the verdict that it has with a data segment, and it keeps its
interface when a custom section is put behind its types. -/
theorem only_listed_sections_matter_least :
    validate (Host.cosmwasm1.leastContract []) Host.cosmwasm1.leastRequest =
        validate (Host.cosmwasm1.leastContract [] ++
          Wasm.sectionOf 11 [[0x00, 0x41, 0x00, 0x0b, 0x01, 0xff]])
          Host.cosmwasm1.leastRequest ∧
      Wasm.compile {} (Wasm.header ++ (Wasm.sectionOf 1 [[0x60, 0, 0]] ++
        ([0x00, 0x03, 0x01, 0x78, 0xff] ++ (Host.cosmwasm1.leastContract []).drop 16))) =
        .ok (Host.cosmwasm1.leastInterface []) := by
  have hplain : Wasm.compile {} (Host.cosmwasm1.leastContract []) =
      .ok (Host.cosmwasm1.leastInterface []) := by decide +kernel
  have hdata : Wasm.compile {} (Host.cosmwasm1.leastContract [] ++
      Wasm.sectionOf 11 [[0x00, 0x41, 0x00, 0x0b, 0x01, 0xff]]) =
      .ok (Host.cosmwasm1.leastInterface []) := by decide +kernel
  have hsame := only_listed_sections_matter.1 {} {} _ _ _ _ hplain hdata
    (by decide +kernel) (by decide +kernel)
  have hzero : Wasm.Leb 0 [0x00] := .last (b := 0x00) (by decide)
  have hfive : Wasm.U32 5 [0x85, 0x00] :=
    ⟨.more (b := 0x85) (by decide) hzero, by decide, by decide⟩
  have htypes : Wasm.Items Wasm.FrameForm [(0x01, [0x81, 0x00, 0x60, 0x00, 0x00])]
      (Wasm.sectionOf 1 [[0x60, 0, 0]]) := .single ⟨[0x85, 0x00], hfive, rfl⟩
  have hcustom : Wasm.CustomForm [0x00, 0x03, 0x01, 0x78, 0xff] :=
    ⟨"x", [0x01, 0x78], [0xff], by decide, by decide, Wasm.NameForm.small (by decide),
      [0x03], Wasm.U32.small (by decide), rfl⟩
  refine ⟨hsame.2 _, ?_⟩
  rw [only_listed_sections_matter.2 {} _ _ _ _ htypes hcustom]
  decide +kernel

end ContractAdmission
