import ContractAdmission.Proofs.Wasm.Boundaries

/-!
# Soundness of readers

A reader is sound for a clause of the grammar if what it gets is what some front part of
its bytes stands for, and it leaves the rest.  Together with the statements on what is
read (`Reader.Reads`) this says that the readers accept the grammar and nothing else.

* `Reader.Sound` — the property, with a rule for each way to put readers together.
* `Determinate.counted` — a counted list can be told apart if its items can.
-/

namespace ContractAdmission
namespace Wasm

namespace Reader

variable {α β : Type} {form : α → Bytes → Prop} {form' : β → Bytes → Prop}

/-- Whatever the reader gets, a front part of the bytes stands for it, and the rest is
left. -/
def Sound (reader : Reader α) (form : α → Bytes → Prop) : Prop :=
  ∀ bytes value rest, reader bytes = some (value, rest) →
    ∃ front, bytes = front ++ rest ∧ form value front

theorem Sound.pure {value : α} (h : form value []) : Sound (pure value) form := by
  intro bytes result rest hread
  cases hread
  exact ⟨[], rfl, h⟩

theorem Sound.refuse : Sound (refuse : Reader α) form := by
  intro bytes value rest hread
  cases hread

/-- What a second reader gets is a whole with what the first one has consumed. -/
theorem Sound.bind {reader : Reader α} {next : α → Reader β} (h : Sound reader form)
    (hnext : ∀ value front, form value front →
      Sound (next value) fun result back => form' result (front ++ back)) :
    Sound (reader >>= next) form' := by
  intro bytes result rest hread
  obtain ⟨value, middle, hfirst, hsecond⟩ := bind_eq_some_iff.1 hread
  obtain ⟨front, rfl, hfront⟩ := h bytes value middle hfirst
  obtain ⟨back, rfl, hback⟩ := hnext value front hfront middle result rest hsecond
  exact ⟨front ++ back, by rw [List.append_assoc], hback⟩

theorem Sound.weaken {reader : Reader α} {weaker : α → Bytes → Prop} (h : Sound reader form)
    (himplies : ∀ value bytes, form value bytes → weaker value bytes) : Sound reader weaker := by
  intro bytes value rest hread
  obtain ⟨front, hfront, hform⟩ := h bytes value rest hread
  exact ⟨front, hfront, himplies value front hform⟩

theorem Sound.map {reader : Reader α} {f : α → β}
    (h : Sound reader fun value bytes => form' (f value) bytes) : Sound (f <$> reader) form' := by
  have hbind : Sound (reader >>= fun value => Pure.pure (f value)) form' :=
    h.bind fun value front hform => Sound.pure (by rwa [List.append_nil])
  exact hbind

/-- What is required holds for all that is read later. -/
theorem Sound.required {condition : Prop} [Decidable condition] {next : Unit → Reader α}
    (h : condition → Sound (next ()) form) : Sound (require condition >>= next) form := by
  intro bytes value rest hread
  obtain ⟨hcondition, hnext⟩ := require_bind_eq_some_iff.1 hread
  exact h hcondition bytes value rest hnext

/-- What is expected is there. -/
theorem Sound.expect {found : Option α} (h : ∀ value, found = some value → form value []) :
    Sound (expect found) form := by
  cases found with
  | none => exact Sound.refuse
  | some value => exact Sound.pure (h value rfl)

theorem Sound.byte_bind {next : UInt8 → Reader α}
    (h : ∀ b, Sound (next b) fun result back => form result (b :: back)) :
    Sound (byte >>= next) form := by
  have hbyte : Sound byte fun b front => front = [b] := by
    intro bytes b rest hread
    cases bytes with
    | nil => cases hread
    | cons first later =>
        cases hread
        exact ⟨[b], rfl, rfl⟩
  refine hbyte.bind ?_
  rintro b - rfl
  exact h b

theorem sound_take (count : Nat) :
    Sound (take count) fun value front => front = value ∧ value.length = count := by
  intro bytes value rest hread
  simp only [Reader.take] at hread
  split at hread
  · rename_i hlength
    cases hread
    exact ⟨bytes.take count, (List.take_append_drop count bytes).symm, rfl, hlength⟩
  · cases hread

/-- What a sound reader gets from all of the bytes is what they stand for. -/
theorem Sound.exactly {reader : Reader α} (h : Sound reader form) {bytes : Bytes} {value : α}
    (hread : exactly reader bytes = some value) : form value bytes := by
  unfold Reader.exactly at hread
  split at hread
  · rename_i found hfound
    cases hread
    obtain ⟨front, rfl, hform⟩ := h bytes value [] hfound
    rwa [List.append_nil]
  · cases hread

end Reader

open Reader

theorem valueCount_le_of_le {bits more : Nat} (h : bits ≤ more) :
    valueCount bits ≤ valueCount more :=
  Nat.pow_le_pow_right (by decide) h

theorem Unsigned.last {b : UInt8} {bits : Nat} (h : b.toNat < 0x80)
    (hbounded : b.toNat < valueCount bits) (hbits : 0 < bits) : Unsigned bits b.toNat [b] :=
  ⟨.last h, hbounded, by rw [List.length_singleton]; omega⟩

/-- A group that is not the last adds seven bits to a number, and takes one byte. -/
theorem Unsigned.more {b : UInt8} {bits high : Nat} {rest : Bytes} (h : 0x80 ≤ b.toNat)
    (hhigh : Unsigned (bits + 1) high rest) :
    Unsigned (bits + 8) (b.toNat - 0x80 + 0x80 * high) (b :: rest) := by
  have hbyte : b.toNat < 256 := b.toNat_lt
  have hsplit : valueCount (bits + 8) = 0x80 * valueCount (bits + 1) :=
    valueCount_add_seven (bits + 1)
  have hbounded := hhigh.bounded
  have hshort := hhigh.short
  exact ⟨.more h hhigh.groups, by omega, by rw [List.length_cons]; omega⟩

/-- The reader of numbers gets what the groups stand for. -/
theorem sound_unsigned {bits : Nat} (hbits : 0 < bits) : Sound (unsigned bits) (Unsigned bits) := by
  induction bits using Reader.unsigned.induct with
  | case1 bits ih =>
      rw [unsigned]
      refine Sound.byte_bind fun b => ?_
      split
      · -- The last group: its seven bits fit into any eight.
        rename_i hlast
        have hvalues : valueCount 7 ≤ valueCount (bits + 8) := valueCount_le_of_le (by omega)
        exact Sound.pure (.last hlast (Nat.lt_of_lt_of_le hlast hvalues) hbits)
      · rename_i hmore
        refine (ih (Nat.succ_pos _)).bind fun high rest hhigh => Sound.pure ?_
        rw [List.append_nil]
        exact hhigh.more (Nat.le_of_not_lt hmore)
  | case2 bits hfew =>
      have hless : bits < 8 := by
        rcases Nat.lt_or_ge bits 8 with hless | hmany
        · exact hless
        · exact absurd (Nat.sub_add_cancel hmany).symm (hfew (bits - 8))
      rw [unsigned]
      · refine Sound.byte_bind fun b => Sound.required fun hbounded => Sound.pure ?_
        have hvalues : valueCount bits ≤ valueCount 7 := valueCount_le_of_le (by omega)
        exact .last (Nat.lt_of_lt_of_le hbounded hvalues) hbounded hbits
      · exact hfew

theorem sound_u32 : Sound u32 U32 := sound_unsigned (by decide)

/-- A reader of items gets what stands one after the other. -/
theorem sound_repeated {α : Type} {form : α → Bytes → Prop} {item : Reader α}
    (h : Sound item form) (count : Nat) :
    Sound (repeated item count) fun values bytes =>
      values.length = count ∧ Items form values bytes := by
  induction count with
  | zero => exact Sound.pure ⟨rfl, .nil⟩
  | succ count ih =>
      refine h.bind fun first front hfirst => ih.bind fun rest back hrest => Sound.pure ?_
      obtain ⟨hcount, hitems⟩ := hrest
      rw [List.append_nil]
      exact ⟨by rw [List.length_cons, hcount], .cons hfirst hitems⟩

/-- A reader of a list gets what is counted. -/
theorem sound_vector {α : Type} {form : α → Bytes → Prop} {item : Reader α}
    (h : Sound item form) (limit : Nat) :
    Sound (vector limit item) fun values bytes =>
      values.length ≤ limit ∧ Counted form values bytes := by
  refine sound_u32.bind fun count front hcount => Sound.required fun hlimit => ?_
  refine (sound_repeated h count).weaken ?_
  rintro values bytes ⟨rfl, hitems⟩
  exact ⟨hlimit, front, bytes, hcount, hitems, rfl⟩

/-- Bytes that encode a text are the encoding of the text. -/
theorem toByteArray_of_fromUTF8? {bytes : Bytes} {text : String}
    (h : String.fromUTF8? ⟨bytes.toArray⟩ = some text) :
    text.toByteArray.data.toList = bytes := by
  unfold String.fromUTF8? at h
  split at h
  · cases h
    rfl
  · cases h

/-- The reader of names gets a name whose encoding the bytes are. -/
theorem sound_name :
    Sound Reader.name fun text bytes =>
      text.utf8ByteSize ≤ Reader.maxNameBytes ∧ NameForm text bytes := by
  refine sound_u32.bind fun size front hsize => Sound.required fun hlimit => ?_
  refine (sound_take size).bind ?_
  rintro value encoding ⟨rfl, hcount⟩
  refine Sound.expect fun text htext => ?_
  have hencoding : text.toByteArray.data.toList = encoding := toByteArray_of_fromUTF8? htext
  -- The size that was announced is that of the text, since its encoding fills it.
  have hlength : size = text.utf8ByteSize := by
    rw [← hcount, ← hencoding]
    simp
  subst hlength
  exact ⟨hlimit, front, hsize, by rw [hencoding, List.append_nil]⟩

/-! ### Clauses that can be told apart -/

section Determinate

variable {α : Type} {form : α → Bytes → Prop}

/-- No bytes of a language are a proper beginning of others. -/
def PrefixFree (language : Bytes → Prop) : Prop :=
  ∀ ⦃front front' rest rest' : Bytes⦄, language front → language front' →
    front ++ rest = front' ++ rest' → front = front' ∧ rest = rest'

theorem Determinate.prefixFree (h : Determinate form) :
    PrefixFree fun bytes => ∃ value, form value bytes := by
  rintro front front' rest rest' ⟨value, hform⟩ ⟨value', hform'⟩ heq
  exact (h hform hform' heq).2

theorem determinate_u32 : Determinate U32 := .of_reads fun _ _ h => h.reads_u32

/-- As many items as there are can be told apart if each can. -/
theorem Determinate.items (h : Determinate form) {values values' : List α}
    {bytes bytes' rest rest' : Bytes} (hitems : Items form values bytes)
    (hitems' : Items form values' bytes') (hcount : values.length = values'.length)
    (heq : bytes ++ rest = bytes' ++ rest') :
    values = values' ∧ bytes = bytes' ∧ rest = rest' := by
  induction hitems generalizing values' bytes' with
  | nil =>
      cases hitems' with
      | nil => exact ⟨rfl, rfl, heq⟩
      | cons head tail => cases hcount
  | @cons first others part later head tail ih =>
      cases hitems' with
      | nil => cases hcount
      | @cons first' others' part' later' head' tail' =>
          rw [List.append_assoc, List.append_assoc] at heq
          obtain ⟨rfl, rfl, hlater⟩ := h head head' heq
          obtain ⟨rfl, rfl, rfl⟩ := ih tail' (Nat.succ.inj hcount) hlater
          exact ⟨rfl, rfl, rfl⟩

/-- A list whose items are counted first can be told apart if its items can. -/
theorem Determinate.counted (h : Determinate form) : Determinate (Counted form) := by
  rintro values values' - - rest rest' ⟨count, items, hcount, hitems, rfl⟩
    ⟨count', items', hcount', hitems', rfl⟩ heq
  rw [List.append_assoc, List.append_assoc] at heq
  -- The counts are told apart first, and then as many items on either side.
  obtain ⟨hlength, rfl, hlater⟩ := determinate_u32 hcount hcount' heq
  obtain ⟨rfl, rfl, rfl⟩ := h.items hitems hitems' hlength hlater
  exact ⟨rfl, rfl, rfl⟩

/-- The same bytes do not stand for two lists. -/
theorem Determinate.eq_of_counted (h : Determinate form) {values values' : List α}
    {bytes : Bytes} (hvalues : Counted form values bytes) (hvalues' : Counted form values' bytes) :
    values = values' := by
  have heq : bytes ++ [] = bytes ++ [] := rfl
  exact (h.counted hvalues hvalues' heq).1

/-- The length of a name says where it ends. -/
theorem determinate_name : Determinate NameForm := by
  rintro text text' - - rest rest' ⟨size, hsize, rfl⟩ ⟨size', hsize', rfl⟩ heq
  rw [List.append_assoc, List.append_assoc] at heq
  obtain ⟨hlength, rfl, hlater⟩ := determinate_u32 hsize hsize' heq
  obtain ⟨hencoding, rfl⟩ := List.append_inj hlater (by simp [hlength])
  have htext : text = text' := by
    apply String.toByteArray_inj.1
    exact ByteArray.ext (Array.toList_inj.1 hencoding)
  subst htext
  exact ⟨rfl, rfl, rfl⟩

end Determinate

end Wasm
end ContractAdmission
