import ContractAdmission.Wasm.Reader
import Mathlib.Data.List.Basic

/-!
# A grammar of bytes

Which bytes stand for a number, for a name and for a list of items, said without a
reader.  Several sequences of bytes may stand for the same number, since the groups of
seven bits may go on after the highest bit that is set.

`Reader.Reads` says that a reader gets a value from bytes that stand for it and leaves
whatever follows untouched.  In this form the statements compose, and each clause of
the grammar has one.
-/

namespace ContractAdmission
namespace Wasm

/-- Bytes that stand for a number in groups of seven bits, the lowest first. -/
inductive Leb : Nat → Bytes → Prop
  | last {b : UInt8} (h : b.toNat < 0x80) : Leb b.toNat [b]
  | more {b : UInt8} {high : Nat} {rest : Bytes} (h : 0x80 ≤ b.toNat) (later : Leb high rest) :
      Leb (b.toNat - 0x80 + 0x80 * high) (b :: rest)

/-- Bytes that stand for a number of so many bits, in no more groups than these bits
can need. -/
structure Unsigned (bits : Nat) (number : Nat) (bytes : Bytes) : Prop where
  groups : Leb number bytes
  bounded : number < valueCount bits
  short : 7 * bytes.length < bits + 7

/-- Bytes that stand for a number of thirty-two bits: at most five of them. -/
abbrev U32 : Nat → Bytes → Prop := Unsigned 32

/-- Bytes that stand for some items, one after the other. -/
inductive Items {α : Type} (form : α → Bytes → Prop) : List α → Bytes → Prop
  | nil : Items form [] []
  | cons {first : α} {rest : List α} {bytes later : Bytes} (head : form first bytes)
      (tail : Items form rest later) : Items form (first :: rest) (bytes ++ later)

/-- Bytes that stand for a list of items: their number, and then the items. -/
def Counted {α : Type} (form : α → Bytes → Prop) (values : List α) (bytes : Bytes) : Prop :=
  ∃ count items, U32 values.length count ∧ Items form values items ∧ bytes = count ++ items

/-- Bytes that stand for a name: the length of its encoding, and then the encoding. -/
def NameForm (name : String) (bytes : Bytes) : Prop :=
  ∃ size, U32 name.utf8ByteSize size ∧ bytes = size ++ name.toByteArray.data.toList

namespace Reader

/-- The reader gets the value from the bytes, whatever follows them, and leaves what
follows. -/
def Reads {α : Type} (reader : Reader α) (bytes : Bytes) (value : α) : Prop :=
  ∀ rest, reader (bytes ++ rest) = some (value, rest)

variable {α β : Type}

theorem Reads.pure (value : α) : Reads (pure value : Reader α) [] value := fun _ => rfl

theorem Reads.bind {reader : Reader α} {next : α → Reader β} {first second : Bytes}
    {value : α} {result : β} (h : Reads reader first value)
    (hnext : Reads (next value) second result) :
    Reads (reader >>= next) (first ++ second) result := by
  intro rest
  change (reader (first ++ second ++ rest)).bind (fun pair => next pair.1 pair.2) = _
  rw [List.append_assoc, h]
  exact hnext rest

theorem Reads.last {reader : Reader α} {next : α → Reader β} {bytes : Bytes} {value : α}
    {result : β} (h : Reads reader bytes value) (hnext : Reads (next value) [] result) :
    Reads (reader >>= next) bytes result := by
  rw [← List.append_nil bytes]
  exact h.bind hnext

theorem Reads.map {reader : Reader α} {bytes : Bytes} {value : α} (f : α → β)
    (h : Reads reader bytes value) : Reads (f <$> reader) bytes (f value) := by
  intro rest
  change (reader (bytes ++ rest)).bind (fun pair => some (f pair.1, pair.2)) = _
  rw [h]
  rfl

theorem Reads.require {condition : Prop} [Decidable condition] (h : condition) :
    Reads (require condition) [] () := by
  intro rest
  simp [Reader.require, h]

theorem Reads.required {condition : Prop} [Decidable condition] {next : Unit → Reader α}
    {bytes : Bytes} {value : α} (h : condition) (hnext : Reads (next ()) bytes value) :
    Reads (Reader.require condition >>= next) bytes value :=
  (Reads.require h).bind hnext

theorem Reads.expect (value : α) : Reads (expect (some value)) [] value := fun _ => rfl

theorem Reads.byte (b : UInt8) : Reads byte [b] b := fun _ => rfl

theorem Reads.byte_bind {b : UInt8} {next : UInt8 → Reader α} {bytes : Bytes} {value : α}
    (h : Reads (next b) bytes value) : Reads (Reader.byte >>= next) (b :: bytes) value :=
  (Reads.byte b).bind h

theorem Reads.take {count : Nat} {bytes : Bytes} (h : count = bytes.length) :
    Reads (take count) bytes bytes := by
  intro rest
  subst h
  simp [Reader.take]

/-- A reader that gets a value from bytes does so from these bytes alone. -/
theorem Reads.exactly {reader : Reader α} {bytes : Bytes} {value : α}
    (h : Reads reader bytes value) : exactly reader bytes = some value := by
  have hall := h []
  rw [List.append_nil] at hall
  simp [Reader.exactly, hall]

end Reader

open Reader

theorem valueCount_add_seven (bits : Nat) : valueCount (bits + 7) = 0x80 * valueCount bits := by
  have hdouble : ∀ bits, valueCount (bits + 1) = valueCount bits * 2 := fun _ => rfl
  simp only [hdouble]
  omega

/-- The reader of numbers gets a number from every form of it. -/
theorem Leb.reads {number : Nat} {bytes : Bytes} (h : Leb number bytes) {bits : Nat}
    (hbits : 0 < bits) (hbounded : number < valueCount bits)
    (hshort : 7 * bytes.length < bits + 7) :
    Reads (unsigned bits) bytes number := by
  induction h generalizing bits with
  | @last b hb =>
      -- With fewer than eight bits left the reader takes the last group it allows.
      rcases Nat.lt_or_ge bits 8 with hfew | hmany
      · have hsmall : unsigned bits = do
            let b ← byte
            require (b.toNat < valueCount bits)
            return b.toNat := by
          rw [unsigned]
          omega
        rw [hsmall]
        exact (Reads.byte b).last (Reads.required hbounded (Reads.pure _))
      · obtain ⟨more, rfl⟩ := Nat.exists_eq_add_of_le' hmany
        rw [unsigned]
        refine (Reads.byte b).last ?_
        rw [if_pos hb]
        exact Reads.pure _
  | @more b high rest hb later ih =>
      have hpositive : 0 < rest.length := by
        cases later <;> simp
      rw [List.length_cons] at hshort
      -- A group follows, so the bits are more than those of one group.
      obtain ⟨more, rfl⟩ : ∃ more, bits = more + 8 := ⟨bits - 8, by omega⟩
      have hsplit : valueCount (more + 8) = 0x80 * valueCount (more + 1) :=
        valueCount_add_seven (more + 1)
      have hhigh : Reads (unsigned (more + 1)) rest high :=
        ih (by omega) (by omega) (by omega)
      rw [unsigned]
      refine Reads.byte_bind ?_
      rw [if_neg (by omega)]
      exact hhigh.last (Reads.pure _)

theorem Unsigned.reads {bits number : Nat} {bytes : Bytes} (h : Unsigned bits number bytes)
    (hbits : 0 < bits) : Reads (unsigned bits) bytes number :=
  h.groups.reads hbits h.bounded h.short

theorem Unsigned.reads_u32 {number : Nat} {bytes : Bytes} (h : U32 number bytes) :
    Reads u32 bytes number :=
  h.reads (by decide)

/-- A reader of items gets them one after the other. -/
theorem Items.reads {α : Type} {form : α → Bytes → Prop} {item : Reader α} {values : List α}
    {bytes : Bytes} (h : Items form values bytes)
    (hitem : ∀ value ∈ values, ∀ part, form value part → Reads item part value) :
    Reads (repeated item values.length) bytes values := by
  induction h with
  | nil => exact Reads.pure []
  | @cons first rest bytes later head tail ih =>
      have hfirst : Reads item bytes first := hitem first (by simp) bytes head
      have hrest : Reads (repeated item rest.length) later rest :=
        ih fun value hvalue => hitem value (List.mem_cons_of_mem first hvalue)
      rw [List.length_cons, repeated]
      exact hfirst.bind (hrest.last (Reads.pure _))

/-- A reader of a list gets a list that is not too long. -/
theorem Counted.reads {α : Type} {form : α → Bytes → Prop} {item : Reader α} {limit : Nat}
    {values : List α} {bytes : Bytes} (h : Counted form values bytes)
    (hlimit : values.length ≤ limit)
    (hitem : ∀ value ∈ values, ∀ part, form value part → Reads item part value) :
    Reads (vector limit item) bytes values := by
  obtain ⟨count, items, hcount, hitems, rfl⟩ := h
  exact hcount.reads_u32.bind (Reads.required hlimit (hitems.reads hitem))

/-- The reader of names gets a name that is not too long. -/
theorem NameForm.reads {text : String} {bytes : Bytes} (h : NameForm text bytes)
    (hsize : text.utf8ByteSize ≤ Reader.maxNameBytes) : Reads Reader.name bytes text := by
  obtain ⟨size, hcount, rfl⟩ := h
  have hdecoded : String.fromUTF8? ⟨text.toByteArray.data.toList.toArray⟩ = some text := by
    rw [Array.toArray_toList, String.fromUTF8?, dif_pos text.isValidUTF8]
    rfl
  have hencoding : Reads (take text.utf8ByteSize) text.toByteArray.data.toList
      text.toByteArray.data.toList := Reads.take (by simp)
  refine hcount.reads_u32.bind (Reads.required hsize (hencoding.last ?_))
  rw [hdecoded]
  exact Reads.expect text

end Wasm
end ContractAdmission
