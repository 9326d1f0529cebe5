import ContractAdmission.Proofs.Wasm.Soundness

/-!
# Types as they are written

Which bytes stand for the types of references, values, tables, memories and globals, those
that refer to declared types included.  The forms in a blueprint are some of these.  An
index is taken as it is written: what it refers to is not a matter of the bytes.

A clause comes with two statements: its reader is sound for it, and bytes begin with
something of the clause in one way only.
-/

namespace ContractAdmission
namespace Wasm

open Reader

/-! ### Signed numbers -/

/-- Bytes that stand for an integer in groups of seven bits, the lowest first.  The highest
bit of the last group is the sign. -/
inductive SignedLeb : Int → Bytes → Prop
  | last {b : UInt8} (h : b.toNat < 0x80) : SignedLeb (signedGroup b.toNat) [b]
  | more {b : UInt8} {high : Int} {rest : Bytes} (h : 0x80 ≤ b.toNat)
      (later : SignedLeb high rest) :
      SignedLeb ((b.toNat : Int) - 0x80 + 0x80 * high) (b :: rest)

/-- Bytes that stand for an integer of so many bits in two's complement, in no more groups
than these bits can need. -/
structure Signed (bits : Nat) (number : Int) (bytes : Bytes) : Prop where
  groups : SignedLeb number bytes
  above : -(valueCount (bits - 1) : Int) ≤ number
  below : number < valueCount (bits - 1)
  short : 7 * bytes.length < bits + 7

/-- A single group of seven bits has a value of seven bits. -/
theorem signedGroup_bounds {n : Nat} (h : n < 0x80) :
    -(valueCount 6 : Int) ≤ signedGroup n ∧ signedGroup n < valueCount 6 := by
  have hcount : valueCount 6 = 0x40 := rfl
  unfold signedGroup
  split <;> omega

theorem SignedLeb.reads {number : Int} {bytes : Bytes} (h : SignedLeb number bytes) {bits : Nat}
    (hbits : 0 < bits) (habove : -(valueCount (bits - 1) : Int) ≤ number)
    (hbelow : number < valueCount (bits - 1)) (hshort : 7 * bytes.length < bits + 7) :
    Reads (signed bits) bytes number := by
  induction h generalizing bits with
  | @last b hb =>
      rcases Nat.lt_or_ge bits 8 with hfew | hmany
      · have hsmall : signed bits = do
            let b ← byte
            require (b.toNat < 0x80)
            let value := signedGroup b.toNat
            let bound : Int := valueCount (bits - 1)
            require (-bound ≤ value ∧ value < bound)
            return value := by
          -- No pattern with more bits applies.
          rw [signed]
          omega
        rw [hsmall]
        exact (Reads.byte b).last (Reads.required hb (Reads.required ⟨habove, hbelow⟩
          (Reads.pure _)))
      · obtain ⟨more, rfl⟩ := Nat.exists_eq_add_of_le' hmany
        rw [signed]
        refine (Reads.byte b).last ?_
        rw [if_pos hb]
        exact Reads.pure _
  | @more b high rest hb later ih =>
      have hpositive : 0 < rest.length := by
        cases later <;> simp
      have hbyte : b.toNat < 256 := b.toNat_lt
      rw [List.length_cons] at hshort
      -- A group follows, so the bits are more than those of one group.
      obtain ⟨more, rfl⟩ : ∃ more, bits = more + 8 := ⟨bits - 8, by omega⟩
      have hsplit : valueCount (more + 8 - 1) = 0x80 * valueCount (more + 1 - 1) :=
        valueCount_add_seven more
      have hhigh : Reads (signed (more + 1)) rest high :=
        ih (by omega) (by omega) (by omega) (by omega)
      rw [signed]
      refine Reads.byte_bind ?_
      rw [if_neg (by omega)]
      exact hhigh.last (Reads.pure _)

theorem Signed.reads {bits : Nat} {number : Int} {bytes : Bytes} (h : Signed bits number bytes)
    (hbits : 0 < bits) : Reads (signed bits) bytes number :=
  h.groups.reads hbits h.above h.below h.short

theorem Signed.last {b : UInt8} {bits : Nat} (h : b.toNat < 0x80)
    (habove : -(valueCount (bits - 1) : Int) ≤ signedGroup b.toNat)
    (hbelow : signedGroup b.toNat < valueCount (bits - 1)) (hbits : 0 < bits) :
    Signed bits (signedGroup b.toNat) [b] :=
  ⟨.last h, habove, hbelow, by rw [List.length_singleton]; omega⟩

/-- A group that is not the last adds seven bits to an integer. -/
theorem Signed.more {b : UInt8} {bits : Nat} {high : Int} {rest : Bytes} (h : 0x80 ≤ b.toNat)
    (hhigh : Signed (bits + 1) high rest) :
    Signed (bits + 8) ((b.toNat : Int) - 0x80 + 0x80 * high) (b :: rest) := by
  have hbyte : b.toNat < 256 := b.toNat_lt
  have hsplit : valueCount (bits + 8 - 1) = 0x80 * valueCount (bits + 1 - 1) :=
    valueCount_add_seven bits
  have habove := hhigh.above
  have hbelow := hhigh.below
  have hshort := hhigh.short
  exact ⟨.more h hhigh.groups, by omega, by omega, by rw [List.length_cons]; omega⟩

theorem sound_signed {bits : Nat} (hbits : 0 < bits) : Sound (signed bits) (Signed bits) := by
  induction bits using Reader.signed.induct with
  | case1 bits ih =>
      rw [signed]
      refine Sound.byte_bind fun b => ?_
      split
      · rename_i hlast
        obtain ⟨habove, hbelow⟩ := signedGroup_bounds hlast
        have hvalues : (valueCount 6 : Int) ≤ valueCount (bits + 8 - 1) :=
          Int.ofNat_le.2 (valueCount_le_of_le (by omega))
        exact Sound.pure (.last hlast (Int.le_trans (Int.neg_le_neg hvalues) habove)
          (Int.lt_of_lt_of_le hbelow hvalues) hbits)
      · rename_i hmore
        refine (ih (Nat.succ_pos _)).bind fun high rest hhigh => Sound.pure ?_
        rw [List.append_nil]
        exact hhigh.more (Nat.le_of_not_lt hmore)
  | case2 bits hfew =>
      rw [signed]
      · refine Sound.byte_bind fun b => Sound.required fun hlast => Sound.required fun hbounds =>
          Sound.pure ?_
        exact .last hlast hbounds.1 hbounds.2 hbits
      · exact hfew

/-! ### References and values -/

theorem HeapKind.ofByte?_eq_some_iff {b : UInt8} {kind : HeapKind} :
    ofByte? b = some kind ↔ b = kind.code := by
  constructor
  · intro h
    unfold ofByte? at h
    split at h <;> cases h <;> exact UInt8.toNat_inj.1 ‹_›
  · rintro rfl
    cases kind <;> rfl

/-- Bytes that stand for what a reference refers to: a kind, or the index of a declared
type. -/
inductive HeapTypeForm : HeapType → Bytes → Prop
  | kind (kind : HeapKind) : HeapTypeForm (.kind kind) [kind.code]
  | declared {index : Nat} {bytes : Bytes} (form : Signed 33 index bytes) :
      HeapTypeForm (.declared index) bytes

/-- Bytes that stand for a type of references: a kind with null, or what is referred to
after a byte that says whether null is allowed. -/
inductive ReferenceTypeForm : ReferenceType → Bytes → Prop
  | ofKind (kind : HeapKind) : ReferenceTypeForm (.ofKind kind) [kind.code]
  | lenient {heap : HeapType} {bytes : Bytes} (form : HeapTypeForm heap bytes) :
      ReferenceTypeForm ⟨true, heap⟩ (0x63 :: bytes)
  | strict {heap : HeapType} {bytes : Bytes} (form : HeapTypeForm heap bytes) :
      ReferenceTypeForm ⟨false, heap⟩ (0x64 :: bytes)

/-- Bytes that stand for a type of values. -/
inductive ValueTypeForm : ValueType → Bytes → Prop
  | i32 : ValueTypeForm .i32 [0x7f]
  | i64 : ValueTypeForm .i64 [0x7e]
  | f32 : ValueTypeForm .f32 [0x7d]
  | f64 : ValueTypeForm .f64 [0x7c]
  | v128 : ValueTypeForm .v128 [0x7b]
  | reference {type : ReferenceType} {bytes : Bytes} (form : ReferenceTypeForm type bytes) :
      ValueTypeForm (.reference type) bytes

theorem SignedLeb.exists_cons {number : Int} {bytes : Bytes} (h : SignedLeb number bytes) :
    ∃ b later, bytes = b :: later := by
  cases h with
  | last h => exact ⟨_, _, rfl⟩
  | more h later => exact ⟨_, _, rfl⟩

/-- A single group with its highest bit set stands for a negative number. -/
theorem SignedLeb.negative {b : UInt8} {number : Int} {later : Bytes}
    (h : SignedLeb number (b :: later)) (hsign : 0x40 ≤ b.toNat) (hlast : b.toNat < 0x80) :
    number < 0 := by
  cases h with
  | last h =>
      unfold signedGroup
      split <;> omega
  | more h later => omega

/-- The index of a declared type does not begin as a kind does. -/
theorem ofByte?_of_signed {index : Nat} {b : UInt8} {later : Bytes}
    (h : Signed 33 index (b :: later)) : HeapKind.ofByte? b = none := by
  rw [Option.eq_none_iff_forall_ne_some]
  intro kind hkind
  obtain rfl := HeapKind.ofByte?_eq_some_iff.1 hkind
  -- As a number the byte of a kind is negative, and an index is not.
  have hsign : 0x40 ≤ kind.code.toNat := by cases kind <;> decide
  have hlast : kind.code.toNat < 0x80 := by cases kind <;> decide
  have hnegative := h.groups.negative hsign hlast
  omega

theorem HeapTypeForm.reads {heap : HeapType} {bytes : Bytes} (h : HeapTypeForm heap bytes) :
    Reads HeapType.read bytes heap := by
  cases h with
  | kind kind => cases kind <;> exact fun rest => rfl
  | @declared index bytes form =>
      intro rest
      have hread := form.reads (by decide) rest
      obtain ⟨b, later, rfl⟩ := form.groups.exists_cons
      rw [List.cons_append] at hread ⊢
      simp [HeapType.read, ofByte?_of_signed form, hread]

theorem sound_heapType : Sound HeapType.read HeapTypeForm := by
  intro bytes heap rest hread
  cases bytes with
  | nil => cases hread
  | cons b later =>
      simp only [HeapType.read] at hread
      split at hread
      · rename_i kind hkind
        obtain rfl := HeapKind.ofByte?_eq_some_iff.1 hkind
        cases hread
        exact ⟨[kind.code], rfl, .kind kind⟩
      · split at hread
        · rename_i index middle hindex
          split at hread
          · rename_i hpositive
            cases hread
            obtain ⟨front, hfront, hform⟩ := sound_signed (by decide) _ _ _ hindex
            obtain ⟨place, rfl⟩ := Int.eq_ofNat_of_zero_le hpositive
            exact ⟨front, hfront, .declared hform⟩
          · cases hread
        · cases hread

theorem ReferenceTypeForm.reads {type : ReferenceType} {bytes : Bytes}
    (h : ReferenceTypeForm type bytes) : Reads ReferenceType.read bytes type := by
  cases h with
  | ofKind kind => cases kind <;> exact fun rest => rfl
  | lenient form => exact Reads.byte_bind (form.reads.map _)
  | strict form => exact Reads.byte_bind (form.reads.map _)

theorem sound_referenceType_readAfter (b : UInt8) :
    Sound (ReferenceType.readAfter b) fun type back => ReferenceTypeForm type (b :: back) := by
  unfold ReferenceType.readAfter
  split
  · rename_i hbyte
    obtain rfl : b = 0x63 := UInt8.toNat_inj.1 hbyte
    exact (sound_heapType.weaken fun heap bytes form => .lenient form).map
  · rename_i hbyte
    obtain rfl : b = 0x64 := UInt8.toNat_inj.1 hbyte
    exact (sound_heapType.weaken fun heap bytes form => .strict form).map
  · refine Sound.map (Sound.expect fun kind hkind => ?_)
    obtain rfl := HeapKind.ofByte?_eq_some_iff.1 hkind
    exact .ofKind kind

theorem sound_referenceType : Sound ReferenceType.read ReferenceTypeForm :=
  Sound.byte_bind sound_referenceType_readAfter

theorem determinate_referenceType : Determinate ReferenceTypeForm :=
  .of_reads fun _ _ h => h.reads

theorem ValueTypeForm.reads {type : ValueType} {bytes : Bytes} (h : ValueTypeForm type bytes) :
    Reads ValueType.read bytes type := by
  cases h with
  | reference form =>
      cases form with
      | ofKind kind => cases kind <;> exact fun rest => rfl
      | lenient form => exact Reads.byte_bind ((form.reads.map _).map _)
      | strict form => exact Reads.byte_bind ((form.reads.map _).map _)
  | _ => exact fun rest => rfl

theorem ValueTypeForm.of_ofByte? {b : UInt8} {type : ValueType}
    (h : ValueType.ofByte? b = some type) : ValueTypeForm type [b] := by
  have hbyte : ∀ code : UInt8, b.toNat = code.toNat → b = code := fun _ => UInt8.toNat_inj.1
  unfold ValueType.ofByte? at h
  split at h <;> cases h
  · exact hbyte 0x7f ‹_› ▸ .i32
  · exact hbyte 0x7e ‹_› ▸ .i64
  · exact hbyte 0x7d ‹_› ▸ .f32
  · exact hbyte 0x7c ‹_› ▸ .f64
  · exact hbyte 0x7b ‹_› ▸ .v128

theorem sound_valueType : Sound ValueType.read ValueTypeForm := by
  refine Sound.byte_bind fun b => ?_
  unfold ValueType.readAfter
  split
  · exact Sound.pure (.of_ofByte? ‹_›)
  · exact ((sound_referenceType_readAfter b).weaken fun type bytes form => .reference form).map

theorem determinate_valueType : Determinate ValueTypeForm := .of_reads fun _ _ h => h.reads

/-! ### Tables, memories and globals -/

/-- Bytes that stand for limits of the shape that flags announce: with a greatest size or
without, and with wide numbers or narrow ones. -/
def FlaggedLimits (flags : UInt8) (bytes : Bytes) : Prop :=
  ∃ limits : Limits, limits.greatest.isSome = flag flags 0 ∧
    LimitsForm (addressBits (flag flags 2)) limits bytes

/-- Bytes that describe a table: the type of its elements, flags, and limits. -/
def TableBytes (bytes : Bytes) : Prop :=
  ∃ type element flags limits, ReferenceTypeForm type element ∧ flags.toNat < 8 ∧
    FlaggedLimits flags limits ∧ bytes = element ++ flags :: limits

/-- Bytes that stand for the size of pages, if flags announce one. -/
def FlaggedPages (flags : UInt8) (bytes : Bytes) : Prop :=
  if flag flags 3 then ∃ pageBits, U32 pageBits bytes else bytes = []

/-- Bytes that describe a memory: flags, limits, and perhaps the size of its pages. -/
def MemoryBytes (bytes : Bytes) : Prop :=
  ∃ flags limits pages, flags.toNat < 16 ∧ FlaggedLimits flags limits ∧
    FlaggedPages flags pages ∧ bytes = flags :: (limits ++ pages)

/-- Bytes that describe a global: the type of its values, and whether it can change. -/
def GlobalBytes (bytes : Bytes) : Prop :=
  ∃ type value flags, ValueTypeForm type value ∧ flags.toNat < 2 ∧ bytes = value ++ [flags]

theorem sound_limits {bits : Nat} (hbits : 0 < bits) (hasGreatest : Bool) :
    Sound (Limits.read bits hasGreatest) fun limits bytes =>
      limits.greatest.isSome = hasGreatest ∧ LimitsForm bits limits bytes := by
  refine (sound_unsigned hbits).bind fun least front hleast => ?_
  split
  · rename_i hgreatest
    refine (sound_unsigned hbits).bind fun greatest back hback => Sound.pure ?_
    rw [List.append_nil]
    exact ⟨hgreatest.symm, .both hleast hback⟩
  · rename_i hnone
    refine Sound.pure ?_
    rw [List.append_nil]
    exact ⟨by simpa using hnone, .least hleast⟩

theorem sound_flaggedLimits (flags : UInt8) :
    Sound (Limits.read (addressBits (flag flags 2)) (flag flags 0)) fun _ bytes =>
      FlaggedLimits flags bytes :=
  (sound_limits (addressBits_pos _) _).weaken fun limits _ h => ⟨limits, h⟩

theorem sound_tableType (table : TypeTable) :
    Sound (TableType.read table) fun _ bytes => TableBytes bytes := by
  have helement : Sound table.readReference fun _ bytes =>
      ∃ written, ReferenceTypeForm written bytes := by
    refine sound_referenceType.bind fun written front hwritten => Sound.expect fun _ _ => ?_
    rw [List.append_nil]
    exact ⟨written, hwritten⟩
  refine helement.bind fun _ element helement => Sound.byte_bind fun flags => ?_
  refine Sound.required fun hflags => (sound_flaggedLimits flags).bind fun _ limits hlimits => ?_
  obtain ⟨written, hwritten⟩ := helement
  exact Sound.pure ⟨written, element, flags, limits, hwritten, hflags, hlimits, by simp⟩

theorem sound_memoryType : Sound MemoryType.read fun _ bytes => MemoryBytes bytes := by
  refine Sound.byte_bind fun flags => Sound.required fun hflags => ?_
  refine (sound_flaggedLimits flags).bind fun _ limits hlimits => ?_
  split
  · rename_i hflag
    have hpages : Sound (some <$> u32) fun _ bytes => ∃ pageBits, U32 pageBits bytes :=
      (sound_u32.weaken fun pageBits _ h => ⟨pageBits, h⟩).map
    refine hpages.bind fun _ pages hpages => Sound.pure ?_
    exact ⟨flags, limits, pages, hflags, hlimits, by rwa [FlaggedPages, if_pos hflag], by simp⟩
  · rename_i hflag
    exact Sound.pure ⟨flags, limits, [], hflags, hlimits, by rw [FlaggedPages, if_neg hflag], by simp⟩

theorem sound_globalType (table : TypeTable) :
    Sound (GlobalType.read table) fun _ bytes => GlobalBytes bytes := by
  have hvalue : Sound table.readValue fun _ bytes => ∃ written, ValueTypeForm written bytes := by
    refine sound_valueType.bind fun written front hwritten => Sound.expect fun _ _ => ?_
    rw [List.append_nil]
    exact ⟨written, hwritten⟩
  refine hvalue.bind fun _ value hvalue => Sound.byte_bind fun flags => ?_
  obtain ⟨written, hwritten⟩ := hvalue
  exact Sound.required fun hflags =>
    Sound.pure ⟨written, value, flags, hwritten, hflags, by simp⟩

theorem prefixFree_flaggedLimits (flags : UInt8) : PrefixFree (FlaggedLimits flags) := by
  rintro front front' rest rest' ⟨limits, hgreatest, hlimits⟩ ⟨limits', hgreatest', hlimits'⟩ heq
  -- The flags say how both are read, so they are read alike.
  have hread := hlimits.reads (addressBits_pos _) rest
  rw [heq, hgreatest, ← hgreatest', hlimits'.reads (addressBits_pos _) rest'] at hread
  obtain ⟨-, rfl⟩ := Prod.mk.inj (Option.some.inj hread)
  exact ⟨List.append_cancel_right heq, rfl⟩

theorem prefixFree_flaggedPages (flags : UInt8) : PrefixFree (FlaggedPages flags) := by
  intro front front' rest rest' hpages hpages' heq
  unfold FlaggedPages at hpages hpages'
  split at hpages
  · rename_i hflag
    rw [if_pos hflag] at hpages'
    exact determinate_u32.prefixFree hpages hpages' heq
  · rename_i hflag
    rw [if_neg hflag] at hpages'
    subst hpages hpages'
    exact ⟨rfl, heq⟩

theorem prefixFree_tableBytes : PrefixFree TableBytes := by
  rintro - - rest rest' ⟨type, element, flags, limits, helement, -, hlimits, rfl⟩
    ⟨type', element', flags', limits', helement', -, hlimits', rfl⟩ heq
  rw [List.append_assoc, List.append_assoc] at heq
  obtain ⟨-, rfl, hafter⟩ := determinate_referenceType helement helement' heq
  obtain ⟨rfl, hlater⟩ := List.cons.inj hafter
  obtain ⟨rfl, rfl⟩ := prefixFree_flaggedLimits flags hlimits hlimits' hlater
  exact ⟨rfl, rfl⟩

theorem prefixFree_memoryBytes : PrefixFree MemoryBytes := by
  rintro - - rest rest' ⟨flags, limits, pages, -, hlimits, hpages, rfl⟩
    ⟨flags', limits', pages', -, hlimits', hpages', rfl⟩ heq
  rw [List.cons_append, List.cons_append, List.append_assoc, List.append_assoc] at heq
  obtain ⟨rfl, hafter⟩ := List.cons.inj heq
  obtain ⟨rfl, hlater⟩ := prefixFree_flaggedLimits flags hlimits hlimits' hafter
  obtain ⟨rfl, rfl⟩ := prefixFree_flaggedPages flags hpages hpages' hlater
  exact ⟨rfl, rfl⟩

theorem prefixFree_globalBytes : PrefixFree GlobalBytes := by
  rintro - - rest rest' ⟨type, value, flags, hvalue, -, rfl⟩ ⟨type', value', flags', hvalue', -, rfl⟩
    heq
  rw [List.append_assoc, List.append_assoc] at heq
  obtain ⟨-, rfl, hlater⟩ := determinate_valueType hvalue hvalue' heq
  obtain ⟨rfl, rfl⟩ := List.cons.inj hlater
  exact ⟨rfl, rfl⟩

end Wasm
end ContractAdmission
