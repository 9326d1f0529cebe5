import ContractAdmission.Proofs.Wasm.Boundaries
import ContractAdmission.Wasm.Typing

/-!
# Instructions under more features

An engine with more features reads some instructions in another way: offsets can be longer,
and a high bit of an alignment says that the number of a memory follows.  Neither makes a
difference to an instruction that an engine with fewer features admits.  Offsets that were
short enough are read as they were, and an alignment with the high bit exceeds the width of
every access, so that no body with such an access has a type.

* `Engine.Within` — every feature of one engine is a feature of the other.
* `Reader.Keeps` — what one reader gets with a property, the other gets too.
* `Instruction.IsNarrow` — an alignment does not exceed the width of its access.
* `Instruction.read_keeps` — narrow instructions are read alike.
* `isNarrow_of_wellTyped` — all instructions of a body that has a type are narrow.
-/

namespace ContractAdmission
namespace Wasm

/-- Every feature of an engine is one of another engine. -/
structure Engine.Within (engine wider : Engine) : Prop where
  multiMemory : engine.multiMemory = true → wider.multiMemory = true
  memory64 : engine.memory64 = true → wider.memory64 = true
  customPageSizes : engine.customPageSizes = true → wider.customPageSizes = true

namespace Reader

variable {α β : Type} {P : α → Prop} {Q : β → Prop}

/-- Whatever a reader gets that has a property, the wider one gets too, and it leaves the same
rest. -/
def Keeps (reader wider : Reader α) (P : α → Prop := fun _ => True) : Prop :=
  ∀ bytes value rest, reader bytes = some (value, rest) → P value →
    wider bytes = some (value, rest)

theorem Keeps.refl (reader : Reader α) : Keeps reader reader P :=
  fun _ _ _ hread _ => hread

theorem Keeps.weaken {reader wider : Reader α} (h : Keeps reader wider) : Keeps reader wider P :=
  fun bytes value rest hread _ => h bytes value rest hread trivial

/-- The first of two readers may keep only some values if those are the ones with which the
second one gets something that has the property. -/
theorem Keeps.bind_of {reader wider : Reader α} {next next' : α → Reader β}
    (h : Keeps reader wider P)
    (hfirst : ∀ value bytes result rest, next value bytes = some (result, rest) → Q result →
      P value)
    (hnext : ∀ value, Keeps (next value) (next' value) Q) :
    Keeps (reader >>= next) (wider >>= next') Q := by
  intro bytes result rest hread hresult
  obtain ⟨value, middle, hvalue, hrest⟩ := bind_eq_some_iff.1 hread
  have hkept := h bytes value middle hvalue (hfirst value middle result rest hrest hresult)
  exact bind_eq_some_iff.2 ⟨value, middle, hkept, hnext value middle result rest hrest hresult⟩

theorem Keeps.bind {reader wider : Reader α} {next next' : α → Reader β}
    (h : Keeps reader wider) (hnext : ∀ value, Keeps (next value) (next' value) Q) :
    Keeps (reader >>= next) (wider >>= next') Q :=
  Keeps.bind_of h (fun _ _ _ _ _ _ => trivial) hnext

/-- Both readers begin in the same way. -/
theorem Keeps.after {reader : Reader α} {next next' : α → Reader β}
    (hnext : ∀ value, Keeps (next value) (next' value) Q) :
    Keeps (reader >>= next) (reader >>= next') Q :=
  Keeps.bind (Keeps.refl reader) hnext

theorem Keeps.map {reader wider : Reader α} {f : α → β} (h : Keeps reader wider P)
    (hvalue : ∀ value, Q (f value) → P value) : Keeps (f <$> reader) (f <$> wider) Q := by
  have hbind : Keeps (reader >>= fun value => pure (f value))
      (wider >>= fun value => pure (f value)) Q := by
    refine h.bind_of ?_ fun value => Keeps.refl _
    intro value bytes result rest hread hresult
    cases hread
    exact hvalue value hresult
  exact hbind

theorem Keeps.require {condition wider : Prop} [Decidable condition] [Decidable wider]
    (h : condition → wider) : Keeps (require condition) (require wider) := by
  intro bytes value rest hread _
  obtain ⟨hcondition, hrest⟩ := require_eq_some_iff.1 hread
  exact require_eq_some_iff.2 ⟨h hcondition, hrest⟩

/-- What is required need not be required of the wider reader. -/
theorem Keeps.required {condition : Prop} [Decidable condition] {next : Unit → Reader α}
    {wider : Reader α} (h : condition → Keeps (next ()) wider P) :
    Keeps (Reader.require condition >>= next) wider P := by
  intro bytes value rest hread
  obtain ⟨hcondition, hnext⟩ := require_bind_eq_some_iff.1 hread
  exact h hcondition bytes value rest hnext

theorem Keeps.expect {found wider : Option α} (h : ∀ value, found = some value → P value →
    wider = some value) : Keeps (expect found) (expect wider) P := by
  intro bytes value rest hread hvalue
  cases found with
  | none => cases hread
  | some result =>
      cases hread
      rw [h value rfl hvalue]
      rfl

theorem Keeps.repeated {item wider : Reader α} (h : Keeps item wider) (count : Nat) :
    Keeps (repeated item count) (repeated wider count) := by
  induction count with
  | zero => exact Keeps.refl _
  | succ count ih => exact h.bind fun _ => ih.bind fun _ => Keeps.refl _

theorem Keeps.vector {item wider : Reader α} {limit more : Nat} (h : Keeps item wider)
    (hlimit : limit ≤ more) : Keeps (vector limit item) (vector more wider) :=
  Keeps.after fun count =>
    (Keeps.require fun hcount => Nat.le_trans hcount hlimit).bind fun _ => h.repeated count

/-- What is got from all of the bytes is kept too. -/
theorem Keeps.exactly {reader wider : Reader α} (h : Keeps reader wider) {bytes : Bytes}
    {value : α} (hread : exactly reader bytes = some value) :
    exactly wider bytes = some value := by
  unfold Reader.exactly at hread
  split at hread
  · rename_i found hfound
    cases hread
    simp only [Reader.exactly, h bytes value [] hfound trivial]
  · cases hread

/-- A number that fits into fewer bits is read in the same way where more are allowed. -/
theorem unsigned_keeps {bits more : Nat} (h : bits ≤ more) :
    Keeps (unsigned bits) (unsigned more) := by
  induction bits using Reader.unsigned.induct generalizing more with
  | case1 bits ih =>
      obtain ⟨extra, rfl⟩ : ∃ extra, more = extra + 8 := ⟨more - 8, by omega⟩
      rw [unsigned, unsigned]
      refine Keeps.after fun b => ?_
      split
      · exact Keeps.refl _
      · exact (ih (by omega)).bind fun _ => Keeps.refl _
  | case2 bits hfew =>
      have hless : bits < 8 := by
        rcases Nat.lt_or_ge bits 8 with hless | hmany
        · exact hless
        · exact absurd (Nat.sub_add_cancel hmany).symm (hfew (bits - 8))
      have hvalues : ∀ n, bits ≤ n → valueCount bits ≤ valueCount n := fun n hn =>
        Nat.pow_le_pow_right (by decide) hn
      rw [unsigned.eq_def]
      split
      · exact absurd rfl (hfew _)
      rw [unsigned.eq_def]
      split
      · -- The one byte that there is has no high bit, so it is the last one here as well.
        refine Keeps.after fun b => Keeps.required fun hbound => ?_
        have hlast : b.toNat < 0x80 := Nat.lt_of_lt_of_le hbound (hvalues 7 (by omega))
        rw [if_pos hlast]
        exact Keeps.refl _
      · exact Keeps.after fun b =>
          (Keeps.require fun hbound => Nat.lt_of_lt_of_le hbound (hvalues _ h)).bind fun _ =>
            Keeps.refl _

end Reader

open Reader

/-! ### The widths of accesses -/

namespace Operation

variable {code width : Nat}

theorem width_lt_of_loadType? {type : ValueType} (h : loadType? code = some (type, width)) :
    width < 0x40 := by
  unfold loadType? at h
  split at h <;> simp_all <;> omega

theorem width_lt_of_storeType? {type : ValueType} (h : storeType? code = some (type, width)) :
    width < 0x40 := by
  unfold storeType? at h
  split at h <;> simp_all <;> omega

theorem width_lt_of_vectorAccess? {signature : Signature}
    (h : vectorAccess? code = some (width, signature)) : width < 0x40 := by
  unfold vectorAccess? at h
  split at h <;> simp_all <;> omega

theorem width_lt_of_laneAccess? {signature : Signature}
    (h : laneAccess? code = some (width, signature)) : width < 0x40 := by
  unfold laneAccess? at h
  split at h
  · simp_all
    omega
  · split at h
    · simp_all
      omega
    · cases h

theorem width_lt_of_atomicAccess? {signature : Signature}
    (h : atomicAccess? code = some (width, signature)) : width < 0x40 := by
  have hforms : ∀ form ∈ atomicForms, form.2 < 0x40 := by decide
  unfold atomicAccess? at h
  split at h
  · simp_all; omega
  · simp_all; omega
  · simp_all; omega
  · split at h
    · obtain ⟨form, hform, hwidth⟩ := Option.map_eq_some_iff.1 h
      obtain ⟨rfl, -⟩ := Prod.mk.inj hwidth
      exact hforms form (List.mem_of_getElem? hform)
    · cases h

end Operation

/-! ### Reading instructions -/

namespace Instruction

/-- The alignment of an access does not exceed its width. -/
def IsNarrow : Instruction → Prop
  | .access width _ _ _ place => place.alignment ≤ width
  | _ => True

section

variable {engine wider : Engine} (h : engine.Within wider)

include h

/-- Where there can be several memories, the zero byte is the number of the first one. -/
theorem readMemoryIndex_keeps : Keeps (readMemoryIndex engine) (readMemoryIndex wider) := by
  unfold readMemoryIndex
  cases hfew : engine.multiMemory with
  | true =>
      rw [if_pos (h.multiMemory hfew)]
      exact Keeps.refl _
  | false =>
      cases wider.multiMemory with
      | false => exact Keeps.refl _
      | true =>
          have hnumber : u32 = byte >>= fun b =>
              if b.toNat < 0x80 then pure b.toNat
              else unsigned 25 >>= fun high => pure (b.toNat - 0x80 + 0x80 * high) := rfl
          rw [if_neg Bool.false_ne_true, if_pos rfl, hnumber]
          refine Keeps.after fun b => Keeps.required fun hzero => ?_
          rw [hzero]
          exact Keeps.refl _

theorem readOffset_keeps :
    Keeps (if engine.memory64 then u64 else u32) (if wider.memory64 then u64 else u32) := by
  cases hfew : engine.memory64 with
  | true =>
      rw [h.memory64 hfew]
      exact Keeps.refl _
  | false =>
      cases wider.memory64 with
      | false => exact Keeps.refl _
      | true => exact unsigned_keeps (by decide)

omit h in
/-- The alignment, the number of the memory, and the offset are read one after the other. -/
theorem readAccess_eq (engine : Engine) :
    readAccess engine = u32 >>= fun alignment =>
      (if engine.multiMemory && alignment.testBit 6 then u32 else pure 0) >>= fun memory =>
      (if engine.memory64 then u64 else u32) >>= fun offset =>
        pure ⟨if engine.multiMemory && alignment.testBit 6 then alignment - 0x40 else alignment,
          offset, memory⟩ := by
  refine congrArg (u32 >>= ·) (funext fun alignment => ?_)
  cases engine.multiMemory && alignment.testBit 6 <;> cases engine.memory64 <;> rfl

/-- An access is read alike if no high bit in its alignment is taken for a mark. -/
theorem readAccess_keeps :
    Keeps (readAccess engine) (readAccess wider) fun place => place.alignment < 0x40 := by
  rw [readAccess_eq, readAccess_eq]
  refine Keeps.after fun alignment => ?_
  by_cases hnumbered :
      (engine.multiMemory && alignment.testBit 6) = (wider.multiMemory && alignment.testBit 6)
  · rw [hnumbered]
    exact Keeps.after fun memory => (readOffset_keeps h).bind fun offset => Keeps.refl _
  · -- Only the wider engine takes the bit for a mark, so the other has it in the alignment.
    have hbit : alignment.testBit 6 = true ∧ engine.multiMemory = false := by
      cases hbit : alignment.testBit 6 <;> cases hfew : engine.multiMemory <;>
        simp_all [h.multiMemory]
    have hlarge : 0x40 ≤ alignment := Nat.ge_two_pow_of_testBit hbit.1
    intro bytes place rest hread hplace
    simp only [hbit.2, Bool.false_and, Bool.false_eq_true, if_false] at hread
    obtain ⟨memory, _, hmemory, hlater⟩ := bind_eq_some_iff.1 hread
    obtain ⟨offset, _, hoffset, hvalue⟩ := bind_eq_some_iff.1 hlater
    cases hvalue
    exact absurd hplace (Nat.not_lt.2 hlarge)

/-- What is read after an access and has this access in it is read alike if it is narrow. -/
theorem readAccess_bind_keeps {width : Nat} (hwidth : width < 0x40)
    {next : Access → Reader Instruction}
    (hnext : ∀ place bytes instruction rest, next place bytes = some (instruction, rest) →
      ∃ aligned params results, instruction = .access width aligned params results place) :
    Keeps (readAccess engine >>= next) (readAccess wider >>= next) IsNarrow := by
  refine (readAccess_keeps h).bind_of ?_ fun place => Keeps.refl _
  intro place bytes instruction rest hread hnarrow
  obtain ⟨aligned, params, results, rfl⟩ := hnext place bytes instruction rest hread
  exact Nat.lt_of_le_of_lt hnarrow hwidth

/-- An access by itself is read alike if it is narrow. -/
theorem readAccess_pure_keeps {width : Nat} (hwidth : width < 0x40) (aligned : Bool)
    (params results : List ValueType) :
    Keeps (readAccess engine >>= fun place => pure (.access width aligned params results place))
      (readAccess wider >>= fun place => pure (.access width aligned params results place))
      IsNarrow := by
  refine readAccess_bind_keeps h hwidth ?_
  intro place bytes instruction rest hread
  cases hread
  exact ⟨aligned, params, results, rfl⟩

theorem readBulk_keeps : Keeps (readBulk engine) (readBulk wider) IsNarrow := by
  have hindex := readMemoryIndex_keeps h
  refine Keeps.after fun code => ?_
  split
  · exact Keeps.refl _
  · split
    · exact Keeps.after fun segment => hindex.bind fun memory => Keeps.refl _
    · exact Keeps.refl _
    · exact hindex.bind fun target => hindex.bind fun source => Keeps.refl _
    · exact hindex.bind fun memory => Keeps.refl _
    all_goals exact Keeps.refl _

theorem readVector_keeps : Keeps (readVector engine) (readVector wider) IsNarrow := by
  refine Keeps.after fun code => ?_
  split
  · exact Keeps.refl _
  · split
    · exact Keeps.refl _
    · split
      · rename_i haccess
        exact readAccess_pure_keeps h (Operation.width_lt_of_vectorAccess? haccess) _ _ _
      · split
        · rename_i haccess
          refine readAccess_bind_keeps h (Operation.width_lt_of_laneAccess? haccess) ?_
          intro place bytes instruction rest hread
          obtain ⟨lane, _, -, hrequire⟩ := bind_eq_some_iff.1 hread
          obtain ⟨-, hvalue⟩ := require_bind_eq_some_iff.1 hrequire
          cases hvalue
          exact ⟨_, _, _, rfl⟩
        · exact Keeps.refl _

theorem readAtomic_keeps : Keeps (readAtomic engine) (readAtomic wider) IsNarrow := by
  refine Keeps.after fun code => ?_
  split
  · rename_i haccess
    exact readAccess_pure_keeps h (Operation.width_lt_of_atomicAccess? haccess) _ _ _
  · exact Keeps.refl _

theorem readPlain_keeps (code : Nat) :
    Keeps (readPlain engine code) (readPlain wider code) IsNarrow := by
  unfold readPlain
  split
  · rename_i hload
    exact readAccess_pure_keeps h (Operation.width_lt_of_loadType? hload) _ _ _
  · split
    · rename_i hstore
      exact readAccess_pure_keeps h (Operation.width_lt_of_storeType? hstore) _ _ _
    · exact Keeps.refl _

/-- **A narrow instruction is read alike by an engine with more features.** -/
theorem read_keeps : Keeps (read engine) (read wider) IsNarrow := by
  have hindex := readMemoryIndex_keeps h
  refine Keeps.after fun code => ?_
  -- Most codes are read without a look at the engine.
  split
  case h_31 | h_32 => exact hindex.bind fun memory => Keeps.refl _
  case h_45 => exact readBulk_keeps h
  case h_46 => exact readVector_keeps h
  case h_47 => exact readAtomic_keeps h
  case h_48 => exact readPlain_keeps h _
  all_goals exact Keeps.refl _

/-- Narrow instructions, one after the other, are read alike. -/
theorem readAll_keeps {bound : Nat} {bytes : Bytes} {instructions : List Instruction}
    (hread : readAll engine bound bytes = some instructions)
    (hnarrow : ∀ instruction ∈ instructions, instruction.IsNarrow) :
    readAll wider bound bytes = some instructions := by
  induction bound generalizing bytes instructions with
  | zero =>
      cases bytes with
      | nil => exact hread
      | cons b later => cases hread
  | succ bound ih =>
      cases bytes with
      | nil => exact hread
      | cons b later =>
          simp only [readAll] at hread ⊢
          cases hfirst : read engine (b :: later) with
          | none =>
              rw [hfirst] at hread
              cases hread
          | some pair =>
              obtain ⟨first, rest⟩ := pair
              rw [hfirst] at hread
              obtain ⟨others, hothers, rfl⟩ := Option.map_eq_some_iff.1 hread
              obtain ⟨hone, hmore⟩ := List.forall_mem_cons.1 hnarrow
              rw [read_keeps h _ first rest hfirst hone]
              exact Option.map_eq_some_iff.2 ⟨others, ih hothers hmore, rfl⟩

end
end Instruction

/-! ### Typing -/

/-- What has a type is narrow. -/
theorem Instruction.isNarrow_of_step {around : Surroundings} {typing : Typing}
    {instruction : Instruction} {progress : Progress}
    (h : typing.step around instruction = some progress) : instruction.IsNarrow := by
  cases instruction with
  | access width aligned params results place =>
      -- An access is an instruction on memory, and nothing else types it.
      by_contra hwide
      have hnone : around.module.accessType? width aligned place = none := by
        unfold Module.accessType?
        cases around.module.memories[place.memory]? with
        | none => rfl
        | some memory =>
            refine if_neg fun hfits => hwide ?_
            rcases hfits.1 with hsame | hless
            · exact Nat.le_of_eq hsame
            · exact Nat.le_of_lt hless.1
      simp [Typing.step, Typing.opening, Typing.plain, Typing.control, Typing.onOperands,
        Typing.onTable, Typing.onMemory, Typing.onReference, Typing.onStruct, Typing.newArray,
        Typing.onArray, hnone] at h
  | _ => trivial

theorem isNarrow_of_run {around : Surroundings} {typing : Typing}
    {instructions : List Instruction} (h : typing.run around instructions = true) :
    ∀ instruction ∈ instructions, instruction.IsNarrow := by
  fun_induction Typing.run around typing instructions with
  | case1 => cases h
  | case2 => cases h
  | case3 typing instruction rest hdone =>
      obtain rfl := List.isEmpty_iff.1 h
      simpa using Instruction.isNarrow_of_step hdone
  | case4 typing instruction rest next hnext ih =>
      exact List.forall_mem_cons.2 ⟨Instruction.isNarrow_of_step hnext, ih h⟩

/-- Every instruction of a body that has a type is narrow. -/
theorem isNarrow_of_wellTyped {module : Module} {type : FunctionType} {locals : List ValueType}
    {instructions : List Instruction} (h : wellTyped module type locals instructions = true) :
    ∀ instruction ∈ instructions, instruction.IsNarrow :=
  isNarrow_of_run h

end Wasm
end ContractAdmission
