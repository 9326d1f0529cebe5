import ContractAdmission.Proofs.Wasm.Assembly

/-!
# Section boundaries

A reader of sections looks at the bytes of its section and at nothing after them.  So a
binary has one division into sections, and where two binaries begin alike their divisions
do as well: if the shorter one can be divided at all, it ends where a section of the
longer one ends.

* `Reader.Local` — a reader takes a front part of its bytes, and would take the same part
  whatever followed it.
* `Section.split_eq_some_iff` — the division of a binary, said without a reader of lists.
* `Determinate` — bytes that begin with something of a clause do so in one way only.
* `Items.exists_append_of_prefix` — the division of a front part goes on as that of the
  whole.
-/

namespace ContractAdmission
namespace Wasm

namespace Reader

variable {α β : Type}

/-- Two readers, one after the other, get a value through what the first one leaves. -/
theorem bind_eq_some_iff {reader : Reader α} {next : α → Reader β} {bytes rest : Bytes}
    {result : β} :
    (reader >>= next) bytes = some (result, rest) ↔
      ∃ value middle, reader bytes = some (value, middle) ∧
        next value middle = some (result, rest) := by
  change (reader bytes).bind (fun pair => next pair.1 pair.2) = _ ↔ _
  cases reader bytes with
  | none => simp
  | some pair => simp [Prod.ext_iff, and_assoc]

/-- A requirement takes no bytes. -/
theorem require_eq_some_iff {condition : Prop} [Decidable condition] {bytes rest : Bytes}
    {value : Unit} :
    require condition bytes = some (value, rest) ↔ condition ∧ rest = bytes := by
  unfold require
  split
  · rename_i hcondition
    simp [hcondition, eq_comm]
  · rename_i hcondition
    simp [hcondition]

/-- What is read after a requirement is read where it is met. -/
theorem require_bind_eq_some_iff {condition : Prop} [Decidable condition]
    {next : Unit → Reader β} {bytes rest : Bytes} {result : β} :
    (require condition >>= next) bytes = some (result, rest) ↔
      condition ∧ next () bytes = some (result, rest) := by
  rw [bind_eq_some_iff]
  constructor
  · rintro ⟨_, middle, hrequire, hnext⟩
    obtain ⟨hcondition, rfl⟩ := require_eq_some_iff.1 hrequire
    exact ⟨hcondition, hnext⟩
  · rintro ⟨hcondition, hnext⟩
    exact ⟨(), bytes, require_eq_some_iff.2 ⟨hcondition, rfl⟩, hnext⟩

/-- Whatever the reader gets, it gets from a front part of the bytes, and it would get it
whatever followed. -/
def Local (reader : Reader α) : Prop :=
  ∀ bytes value rest, reader bytes = some (value, rest) →
    ∃ front, bytes = front ++ rest ∧ Reads reader front value

theorem Local.pure (value : α) : Local (pure value : Reader α) := by
  intro bytes result rest h
  cases h
  exact ⟨[], rfl, Reads.pure value⟩

theorem Local.refuse : Local (refuse : Reader α) := by
  intro bytes value rest h
  cases h

theorem Local.bind {reader : Reader α} {next : α → Reader β} (h : Local reader)
    (hnext : ∀ value, Local (next value)) : Local (reader >>= next) := by
  intro bytes result rest hread
  obtain ⟨value, middle, hfirst, hsecond⟩ := bind_eq_some_iff.1 hread
  obtain ⟨front, rfl, hreads⟩ := h bytes value middle hfirst
  obtain ⟨back, rfl, hreads'⟩ := hnext value middle result rest hsecond
  exact ⟨front ++ back, by rw [List.append_assoc], hreads.bind hreads'⟩

theorem Local.require (condition : Prop) [Decidable condition] :
    Local (require condition) := by
  intro bytes value rest h
  obtain ⟨hcondition, rfl⟩ := require_eq_some_iff.1 h
  exact ⟨[], rfl, Reads.require hcondition⟩

theorem Local.expect (found : Option α) : Local (expect found) := by
  cases found with
  | none => exact Local.refuse
  | some value => exact Local.pure value

theorem Local.byte : Local byte := by
  intro bytes value rest h
  cases bytes with
  | nil => cases h
  | cons first later =>
      cases h
      exact ⟨[value], rfl, Reads.byte value⟩

theorem Local.take (count : Nat) : Local (take count) := by
  intro bytes value rest h
  simp only [Reader.take] at h
  split at h
  · rename_i hlength
    cases h
    exact ⟨bytes.take count, (List.take_append_drop count bytes).symm,
      Reads.take hlength.symm⟩
  · cases h

/-- The last group of a number ends it. -/
theorem Local.unsigned (bits : Nat) : Local (unsigned bits) := by
  induction bits using Reader.unsigned.induct with
  | case1 bits ih =>
      rw [Reader.unsigned]
      refine Local.byte.bind fun b => ?_
      split
      · exact Local.pure _
      · exact ih.bind fun high => Local.pure _
  | case2 bits hfew =>
      rw [Reader.unsigned]
      · exact Local.byte.bind fun b => (Local.require _).bind fun _ => Local.pure _
      · exact hfew

end Reader

open Reader

/-- A section ends where its contents do. -/
theorem Section.local_read : Local Section.read :=
  Local.byte.bind fun _ => (Local.expect _).bind fun _ => (Local.unsigned 32).bind fun size =>
    (Local.take size).bind fun _ => Local.pure _

/-- What is cut into sections consists of them. -/
theorem items_of_readAll {bound : Nat} {bytes : Bytes} {parts : List Section}
    (h : Section.readAll bound bytes = some parts) : Items SectionForm parts bytes := by
  induction bound generalizing bytes parts with
  | zero =>
      cases bytes with
      | nil =>
          cases h
          exact .nil
      | cons b later => cases h
  | succ bound ih =>
      cases bytes with
      | nil =>
          cases h
          exact .nil
      | cons b later =>
          simp only [Section.readAll] at h
          cases hread : Section.read (b :: later) with
          | none =>
              rw [hread] at h
              cases h
          | some pair =>
              obtain ⟨first, rest⟩ := pair
              rw [hread] at h
              obtain ⟨others, hothers, rfl⟩ := Option.map_eq_some_iff.1 h
              obtain ⟨front, hfront, hform⟩ := Section.local_read _ first rest hread
              rw [hfront]
              exact .cons hform (ih hothers)

/-- A binary is divided into sections exactly as the bytes after its header consist of
them. -/
theorem Section.split_eq_some_iff {bytes : Bytes} {parts : List Section} :
    Section.split bytes = some parts ↔
      ∃ body, bytes = header ++ body ∧ Items SectionForm parts body := by
  unfold Section.split
  constructor
  · intro h
    split at h
    · rename_i hheader
      refine ⟨bytes.drop header.length, ?_, items_of_readAll h⟩
      calc
        bytes = bytes.take header.length ++ bytes.drop header.length :=
          (List.take_append_drop header.length bytes).symm
        _ = header ++ bytes.drop header.length := by rw [hheader]
    · cases h
  · rintro ⟨body, rfl, hitems⟩
    rw [List.take_left, if_pos rfl, List.drop_left]
    exact readAll_of_items hitems (by simp)

/-! ### Clauses that can be told apart -/

section Determinate

variable {α : Type} {form : α → Bytes → Prop}

/-- Bytes begin with something of a clause in one way at most. -/
def Determinate (form : α → Bytes → Prop) : Prop :=
  ∀ ⦃value value' : α⦄ ⦃front front' rest rest' : Bytes⦄, form value front → form value' front' →
    front ++ rest = front' ++ rest' → value = value' ∧ front = front' ∧ rest = rest'

/-- What a reader reads it reads in one way. -/
theorem Determinate.of_reads {reader : Reader α}
    (h : ∀ value bytes, form value bytes → Reads reader bytes value) : Determinate form := by
  intro value value' front front' rest rest' hform hform' heq
  have hread := h value front hform rest
  rw [heq, h value' front' hform' rest'] at hread
  obtain ⟨rfl, rfl⟩ := Prod.mk.inj (Option.some.inj hread)
  exact ⟨rfl, List.append_cancel_right heq, rfl⟩

/-- If bytes that consist of items begin as others that do, then the others have these
items first, and the rest of them consists of the items that are left. -/
theorem Determinate.exists_append_of_prefix (h : Determinate form)
    (hsome : ∀ value, ¬ form value []) {before all : List α} {front rest : Bytes}
    (hfront : Items form before front) (hall : Items form all (front ++ rest)) :
    ∃ after, all = before ++ after ∧ Items form after rest := by
  induction hfront generalizing all with
  | nil => exact ⟨all, rfl, hall⟩
  | @cons first others bytes later head tail ih =>
      generalize hwhole : bytes ++ later ++ rest = whole at hall
      cases hall with
      | nil =>
          have hempty : bytes = [] := by simp_all
          exact absurd (hempty ▸ head) (hsome first)
      | @cons first' others' bytes' later' head' tail' =>
          rw [List.append_assoc] at hwhole
          obtain ⟨rfl, -, rfl⟩ := h head head' hwhole
          obtain ⟨after, rfl, hafter⟩ := ih tail'
          exact ⟨after, rfl, hafter⟩

end Determinate

/-- If bytes that consist of sections begin as others that do, then the others have these
sections first, and the rest of them consists of the sections that are left. -/
theorem Items.exists_append_of_prefix {before parts : List Section} {front rest : Bytes}
    (h : Items SectionForm before front) (h' : Items SectionForm parts (front ++ rest)) :
    ∃ after, parts = before ++ after ∧ Items SectionForm after rest := by
  have hform : Determinate SectionForm := .of_reads fun _ _ hreads => hreads
  refine hform.exists_append_of_prefix ?_ h h'
  -- A section takes a byte at least, so there is something to read.
  intro part hempty
  cases hempty []

end Wasm
end ContractAdmission
