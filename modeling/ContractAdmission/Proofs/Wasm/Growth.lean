import ContractAdmission.Proofs.Wasm.Boundaries

/-!
# What sections change

A binary lists its imports in one section and its exports in another, and each of the two
occurs once at most.  So a run over the sections of a binary has the imports either not
yet at all or already for good, wherever it is stopped, and the exports likewise.

* `Reader.Ensures` — what a reader gets has a property.
* `Module.sectionContents_ensures` — only one section touches the imports, and only one
  the exports.
* `Module.addSection_cases` — everything that one more section can do to the two lists and
  to the places of the order.
* `Module.BelongsTo.eq_or_eq_of_run` — a list that belongs to one section is, at every stop, as it
  was at the beginning or as it will be at the end.
-/

namespace ContractAdmission
namespace Wasm

namespace Reader

variable {α β : Type} {P : β → Prop} {Q : α → Prop}

/-- Whatever the reader gets has the property. -/
def Ensures (reader : Reader α) (Q : α → Prop) : Prop :=
  ∀ bytes value rest, reader bytes = some (value, rest) → Q value

theorem Ensures.pure {value : α} (h : Q value) : Ensures (pure value) Q := by
  intro bytes result rest hread
  cases hread
  exact h

theorem Ensures.refuse : Ensures (refuse : Reader α) Q := by
  intro bytes value rest hread
  cases hread

theorem Ensures.bind {reader : Reader α} {next : α → Reader β} (h : Ensures reader Q)
    (hnext : ∀ value, Q value → Ensures (next value) P) : Ensures (reader >>= next) P := by
  intro bytes result rest hread
  obtain ⟨value, middle, hfirst, hsecond⟩ := bind_eq_some_iff.1 hread
  exact hnext value (h bytes value middle hfirst) middle result rest hsecond

/-- What the first of two readers gets need not have any property. -/
theorem Ensures.after {reader : Reader α} {next : α → Reader β}
    (hnext : ∀ value, Ensures (next value) P) : Ensures (reader >>= next) P :=
  Ensures.bind (Q := fun _ => True) (fun _ _ _ _ => trivial) fun value _ => hnext value

theorem Ensures.weaken {R : α → Prop} {reader : Reader α} (h : Ensures reader Q)
    (himplies : ∀ value, Q value → R value) : Ensures reader R :=
  fun bytes value rest hread => himplies value (h bytes value rest hread)

/-- What a reader gets from all of the bytes has the property too. -/
theorem Ensures.exactly {reader : Reader α} (h : Ensures reader Q) {bytes : Bytes} {value : α}
    (hread : exactly reader bytes = some value) : Q value := by
  unfold Reader.exactly at hread
  split at hread
  · rename_i found hfound
    cases hread
    exact h bytes value [] hfound
  · cases hread

end Reader

open Reader

namespace Module

variable (engine : Engine) (module : Module)

/-- A module with the imports and exports of another. -/
structure SameLists (first next : Module) : Prop where
  imports : next.imports = first.imports
  exports : next.exports = first.exports

variable {engine module} in
theorem SameLists.trans {middle last : Module} (h : module.SameLists middle)
    (h' : middle.SameLists last) : module.SameLists last :=
  ⟨h'.imports.trans h.imports, h'.exports.trans h.exports⟩

theorem constant_ensures (type : ValueType) :
    Ensures (module.constant engine type) module.SameLists :=
  Ensures.after fun _ => Ensures.after fun _ => Ensures.pure ⟨rfl, rfl⟩

theorem typeSection_ensures : Ensures module.typeSection module.SameLists :=
  Ensures.after fun _ => Ensures.after fun _ => Ensures.after fun _ => Ensures.pure ⟨rfl, rfl⟩

theorem functionSection_ensures : Ensures (module.functionSection engine) module.SameLists :=
  Ensures.after fun _ => Ensures.after fun _ => Ensures.pure ⟨rfl, rfl⟩

theorem tableDef_ensures : Ensures (module.tableDef engine) module.SameLists := by
  intro bytes next rest hread
  unfold tableDef at hread
  split at hread
  · -- A table whose elements cannot be null, with an expression for them.
    have hdef : Ensures (do
          let type ← module.tableType engine
          let next ← module.constant engine (.reference type.element)
          return { next with tables := next.tables ++ [type] }) module.SameLists :=
      Ensures.after fun type => (constant_ensures engine module _).bind fun next hnext =>
        Ensures.pure ⟨hnext.imports, hnext.exports⟩
    exact hdef _ next rest hread
  · have hdef : Ensures (do
          let type ← module.tableType engine
          require type.element.nullable
          return { module with tables := module.tables ++ [type] }) module.SameLists :=
      Ensures.after fun _ => Ensures.after fun _ => Ensures.pure ⟨rfl, rfl⟩
    exact hdef _ next rest hread

theorem tableDefs_ensures (count : Nat) :
    Ensures (tableDefs engine count module) module.SameLists := by
  induction count generalizing module with
  | zero => exact Ensures.pure ⟨rfl, rfl⟩
  | succ count ih =>
      exact (tableDef_ensures engine module).bind fun next hnext =>
        (ih next).weaken fun last => hnext.trans

theorem tableSection_ensures : Ensures (module.tableSection engine) module.SameLists :=
  Ensures.after fun count => Ensures.after fun _ =>
    (tableDefs_ensures engine module count).bind fun _ hnext =>
      Ensures.after fun _ => Ensures.pure hnext

theorem memorySection_ensures : Ensures (module.memorySection engine) module.SameLists :=
  Ensures.after fun _ => Ensures.after fun _ => Ensures.pure ⟨rfl, rfl⟩

theorem tagSection_ensures : Ensures (module.tagSection engine) module.SameLists :=
  Ensures.after fun _ => Ensures.after fun _ => Ensures.pure ⟨rfl, rfl⟩

theorem globalDefs_ensures (count : Nat) :
    Ensures (globalDefs engine count module) module.SameLists := by
  induction count generalizing module with
  | zero => exact Ensures.pure ⟨rfl, rfl⟩
  | succ count ih =>
      refine Ensures.after fun type => (constant_ensures engine module _).bind fun next hnext => ?_
      have hadded : module.SameLists { next with globals := next.globals ++ [type] } :=
        ⟨hnext.imports, hnext.exports⟩
      exact (ih _).weaken fun last => hadded.trans

theorem globalSection_ensures : Ensures (module.globalSection engine) module.SameLists :=
  Ensures.after fun count => Ensures.after fun _ =>
    (globalDefs_ensures engine module count).bind fun _ hnext =>
      Ensures.after fun _ => Ensures.pure hnext

theorem startSection_ensures : Ensures module.startSection module.SameLists :=
  Ensures.after fun _ => Ensures.after fun _ => Ensures.after fun _ => Ensures.pure ⟨rfl, rfl⟩

theorem constants_ensures (type : ValueType) (count : Nat) :
    Ensures (constants engine type count module) module.SameLists := by
  induction count generalizing module with
  | zero => exact Ensures.pure ⟨rfl, rfl⟩
  | succ count ih =>
      exact (constant_ensures engine module type).bind fun next hnext =>
        (ih next).weaken fun last => hnext.trans

theorem elementPlace_ensures (index : Nat) :
    Ensures (module.elementPlace engine index) fun found => module.SameLists found.1 :=
  Ensures.after fun _ => (constant_ensures engine module _).bind fun _ hnext => Ensures.pure hnext

theorem elementItems_ensures (asExpressions : Bool) (element : ReferenceType) :
    Ensures (elementItems engine asExpressions element module) module.SameLists := by
  unfold elementItems
  split
  · exact Ensures.after fun count => Ensures.after fun _ =>
      constants_ensures engine module _ count
  · exact Ensures.after fun _ => Ensures.pure ⟨rfl, rfl⟩

theorem elementTarget_ensures (placed : Bool) (index : Nat) :
    Ensures (elementTarget engine placed index module) fun found => module.SameLists found.1 := by
  unfold elementTarget
  split
  · exact (elementPlace_ensures engine module index).bind fun found hfound =>
      Ensures.pure hfound
  · exact Ensures.pure ⟨rfl, rfl⟩

theorem elementSegment_ensures : Ensures (module.elementSegment engine) module.SameLists := by
  refine Ensures.after fun form => Ensures.after fun _ => Ensures.after fun table => ?_
  refine (elementTarget_ensures engine module _ table).bind fun target htarget => ?_
  refine Ensures.after fun element => Ensures.after fun _ => ?_
  refine (elementItems_ensures engine target.1 _ element).bind fun last hlast => ?_
  have hkept := htarget.trans hlast
  exact Ensures.pure ⟨hkept.imports, hkept.exports⟩

theorem elementSegments_ensures (count : Nat) :
    Ensures (elementSegments engine count module) module.SameLists := by
  induction count generalizing module with
  | zero => exact Ensures.pure ⟨rfl, rfl⟩
  | succ count ih =>
      exact (elementSegment_ensures engine module).bind fun next hnext =>
        (ih next).weaken fun last => hnext.trans

theorem elementSection_ensures : Ensures (module.elementSection engine) module.SameLists :=
  Ensures.after fun count => Ensures.after fun _ => elementSegments_ensures engine module count

theorem dataCountSection_ensures : Ensures module.dataCountSection module.SameLists :=
  Ensures.after fun _ => Ensures.after fun _ => Ensures.pure ⟨rfl, rfl⟩

theorem dataSection_ensures : Ensures (module.dataSection engine) module.SameLists :=
  Ensures.after fun _ => Ensures.after fun _ => Ensures.pure ⟨rfl, rfl⟩

theorem codeSection_ensures : Ensures (module.codeSection engine) module.SameLists :=
  Ensures.after fun _ => Ensures.after fun _ => Ensures.after fun _ => Ensures.pure ⟨rfl, rfl⟩

/-- The section of imports leaves the exports alone. -/
theorem importSection_ensures :
    Ensures (module.importSection engine) fun next => next.exports = module.exports :=
  Ensures.after fun _ => Ensures.after fun _ => Ensures.pure rfl

/-- The section of exports leaves the imports alone. -/
theorem exportSection_ensures :
    Ensures module.exportSection fun next => next.imports = module.imports :=
  Ensures.after fun _ => Ensures.after fun _ => Ensures.pure rfl

/-- No other section touches the imports or the exports. -/
theorem sectionContents_ensures (id : SectionId) :
    Ensures (module.sectionContents engine id) fun next =>
      (id ≠ .imports → next.imports = module.imports) ∧
        (id ≠ .exports → next.exports = module.exports) := by
  have hboth : ∀ next, module.SameLists next →
      (id ≠ .imports → next.imports = module.imports) ∧
        (id ≠ .exports → next.exports = module.exports) :=
    fun next hnext => ⟨fun _ => hnext.imports, fun _ => hnext.exports⟩
  cases id with
  | custom => exact Ensures.refuse
  | types => exact (typeSection_ensures module).weaken hboth
  | imports =>
      exact (importSection_ensures engine module).weaken fun next hnext =>
        ⟨fun hother => absurd rfl hother, fun _ => hnext⟩
  | functions => exact (functionSection_ensures engine module).weaken hboth
  | tables => exact (tableSection_ensures engine module).weaken hboth
  | memories => exact (memorySection_ensures engine module).weaken hboth
  | globals => exact (globalSection_ensures engine module).weaken hboth
  | exports =>
      exact (exportSection_ensures module).weaken fun next hnext =>
        ⟨fun _ => hnext, fun hother => absurd rfl hother⟩
  | start => exact (startSection_ensures module).weaken hboth
  | elements => exact (elementSection_ensures engine module).weaken hboth
  | code => exact (codeSection_ensures engine module).weaken hboth
  | data => exact (dataSection_ensures engine module).weaken hboth
  | dataCount => exact (dataCountSection_ensures module).weaken hboth
  | tags => exact (tagSection_ensures engine module).weaken hboth

variable {engine module} {next : Module} {part : Section}

/-- What it takes to add a section: a custom one needs an admissible name, and another one
an open place in the order and contents that can be read. -/
theorem addSection_eq_some_iff :
    module.addSection engine part = some next ↔
      (part.id = .custom ∧ customSection part.contents = true ∧ next = module) ∨
        (part.id ≠ .custom ∧ module.closed ≤ part.id.rank ∧
          ∃ read, exactly (module.sectionContents engine part.id) part.contents = some read ∧
            next = { read with closed := part.id.rank + 1 }) := by
  constructor
  · intro h
    unfold addSection at h
    split at h
    · rename_i hid
      split at h
      · rename_i hname
        cases h
        exact Or.inl ⟨hid, hname, rfl⟩
      · cases h
    · rename_i hid
      split at h
      · rename_i hplace
        obtain ⟨read, hread, rfl⟩ := Option.map_eq_some_iff.1 h
        exact Or.inr ⟨hid, hplace, read, hread, rfl⟩
      · cases h
  · rintro (⟨hid, hname, rfl⟩ | ⟨hid, hplace, read, hread, rfl⟩)
    · simp [addSection, hid, hname]
    · unfold addSection
      split
      · contradiction
      · rw [if_pos hplace, hread]
        rfl

/-- All that one more section can do: a custom one does nothing, and another one closes
the places of the order up to its own, which has to be open, and changes one of the two
lists at most. -/
theorem addSection_cases (h : module.addSection engine part = some next) :
    (part.id = .custom ∧ next = module) ∨
      (module.closed ≤ part.id.rank ∧ next.closed = part.id.rank + 1 ∧
        (part.id ≠ .imports → next.imports = module.imports) ∧
        (part.id ≠ .exports → next.exports = module.exports)) := by
  rcases addSection_eq_some_iff.1 h with ⟨hid, -, rfl⟩ | ⟨-, hplace, read, hread, rfl⟩
  · exact Or.inl ⟨hid, rfl⟩
  · obtain ⟨himports, hexports⟩ := (sectionContents_ensures engine module part.id).exactly hread
    exact Or.inr ⟨hplace, rfl, himports, hexports⟩

/-- Places of the order that are closed stay closed. -/
theorem closed_le_of_addSection (h : module.addSection engine part = some next) :
    module.closed ≤ next.closed := by
  rcases addSection_cases h with ⟨-, rfl⟩ | ⟨hplace, hclosed, -, -⟩
  · exact Nat.le_refl _
  · omega

theorem closed_le_of_run {parts : List Section}
    (h : parts.foldlM (addSection engine) module = some next) : module.closed ≤ next.closed := by
  induction parts generalizing module with
  | nil =>
      cases h
      exact Nat.le_refl _
  | cons part rest ih =>
      rw [List.foldlM_cons] at h
      obtain ⟨middle, hmiddle, hrest⟩ := Option.bind_eq_some_iff.1 h
      exact Nat.le_trans (closed_le_of_addSection hmiddle) (ih hrest)

/-- What a module has of a certain sort is changed by one kind of section only. -/
def BelongsTo {α : Type} (engine : Engine) (list : Module → α) (id : SectionId) : Prop :=
  ∀ module part next, addSection engine module part = some next → part.id ≠ id →
    list next = list module

theorem imports_belongTo : BelongsTo engine (·.imports) .imports := by
  intro module part next h hother
  rcases addSection_cases h with ⟨-, rfl⟩ | ⟨-, -, himports, -⟩
  · rfl
  · exact himports hother

theorem exports_belongTo : BelongsTo engine (·.exports) .exports := by
  intro module part next h hother
  rcases addSection_cases h with ⟨-, rfl⟩ | ⟨-, -, -, hexports⟩
  · rfl
  · exact hexports hother

variable {α : Type} {list : Module → α} {id : SectionId} {parts : List Section}

/-- Once the place of its section is closed, a list is what it will be at the end. -/
theorem BelongsTo.eq_of_closed (h : BelongsTo engine list id) (hid : id ≠ .custom)
    (hclosed : id.rank < module.closed)
    (hrun : parts.foldlM (addSection engine) module = some next) : list next = list module := by
  induction parts generalizing module with
  | nil =>
      cases hrun
      rfl
  | cons part rest ih =>
      rw [List.foldlM_cons] at hrun
      obtain ⟨middle, hmiddle, hrest⟩ := Option.bind_eq_some_iff.1 hrun
      have hlater := closed_le_of_addSection hmiddle
      -- A section whose place is closed does not come again.
      have hother : part.id ≠ id := by
        rintro rfl
        rcases addSection_cases hmiddle with ⟨hcustom, -⟩ | ⟨hplace, -, -, -⟩
        · exact hid hcustom
        · omega
      rw [ih (by omega) hrest, h module part middle hmiddle hother]

/-- As long as the place of its section is open, a list is what it was at the beginning. -/
theorem BelongsTo.eq_of_open (h : BelongsTo engine list id) (hid : id ≠ .custom)
    (hopen : next.closed ≤ id.rank)
    (hrun : parts.foldlM (addSection engine) module = some next) : list next = list module := by
  induction parts generalizing module with
  | nil =>
      cases hrun
      rfl
  | cons part rest ih =>
      rw [List.foldlM_cons] at hrun
      obtain ⟨middle, hmiddle, hrest⟩ := Option.bind_eq_some_iff.1 hrun
      have hlater := closed_le_of_run hrest
      have hother : part.id ≠ id := by
        rintro rfl
        rcases addSection_cases hmiddle with ⟨hcustom, -⟩ | ⟨-, hclosed, -, -⟩
        · exact hid hcustom
        · omega
      rw [ih hrest, h module part middle hmiddle hother]

/-- A list that belongs to one section is, wherever a run is stopped, as it was at the
beginning or as it will be at the end. -/
theorem BelongsTo.eq_or_eq_of_run (h : BelongsTo engine list id) (hid : id ≠ .custom)
    {before after : List Section} {middle : Module}
    (hbefore : before.foldlM (addSection engine) module = some middle)
    (hafter : after.foldlM (addSection engine) middle = some next) :
    list middle = list module ∨ list middle = list next := by
  rcases Nat.lt_or_ge id.rank middle.closed with hclosed | hopen
  · exact Or.inr (h.eq_of_closed hid hclosed hafter).symm
  · exact Or.inl (h.eq_of_open hid hopen hbefore)

end Module
end Wasm
end ContractAdmission
