import ContractAdmission.Wasm.Reader

/-!
# UTF-8

The characters that a sequence of bytes encodes, up to the first byte that no
well formed encoding can have in its place.  The decoder goes byte by byte and
remembers what the character that it is in still owes.
-/

namespace ContractAdmission
namespace Text

/-- A character that is not complete: how many bytes it owes, the bounds of the
next one, and its code so far. -/
structure Owed where
  count : Nat
  low : Nat
  high : Nat
  code : Nat
  deriving DecidableEq, Repr

/-- What a byte leads to. -/
inductive Utf8Step where
  | char (c : Char)
  | owed (owed : Owed)
  | invalid
  deriving DecidableEq, Repr

/-- The first byte of a character. -/
def utf8First (b : Nat) : Utf8Step :=
  if b < 0x80 then .char (Char.ofNat b)
  else if b < 0xc2 then .invalid
  else if b < 0xe0 then .owed ⟨1, 0x80, 0xbf, b - 0xc0⟩
  else if b = 0xe0 then .owed ⟨2, 0xa0, 0xbf, 0⟩
  else if b = 0xed then .owed ⟨2, 0x80, 0x9f, 0xd⟩
  else if b < 0xf0 then .owed ⟨2, 0x80, 0xbf, b - 0xe0⟩
  else if b = 0xf0 then .owed ⟨3, 0x90, 0xbf, 0⟩
  else if b < 0xf4 then .owed ⟨3, 0x80, 0xbf, b - 0xf0⟩
  else if b = 0xf4 then .owed ⟨3, 0x80, 0x8f, 4⟩
  else .invalid

/-- A later byte of a character. -/
def utf8Next (owed : Owed) (b : Nat) : Utf8Step :=
  if owed.low ≤ b ∧ b ≤ owed.high then
    let code := owed.code * 0x40 + (b - 0x80)
    if owed.count = 1 then .char (Char.ofNat code)
    else .owed ⟨owed.count - 1, 0x80, 0xbf, code⟩
  else .invalid

/-- How a sequence of bytes ends. -/
inductive Utf8End where
  | clean
  | truncated
  /-- The byte at an offset cannot stand there. -/
  | invalid (offset : Nat)
  deriving DecidableEq, Repr

/-- The characters of bytes of which the first has a given offset and may belong
to a character that is not complete. -/
def utf8From (owed : Option Owed) (offset : Nat) : Bytes → List Char × Utf8End
  | [] => ([], if owed.isSome then .truncated else .clean)
  | b :: rest =>
      let step := match owed with
        | none => utf8First b.toNat
        | some owed => utf8Next owed b.toNat
      match step with
      | .char c =>
          let (chars, ending) := utf8From none (offset + 1) rest
          (c :: chars, ending)
      | .owed owed => utf8From (some owed) (offset + 1) rest
      | .invalid => ([], .invalid offset)

/-- The characters of a sequence of bytes, and how it ends. -/
def utf8Decode (bytes : Bytes) : List Char × Utf8End :=
  utf8From none 0 bytes

/-- Bytes of ASCII are their own characters. -/
theorem utf8From_ascii (bytes : Bytes) (offset : Nat)
    (h : ∀ b ∈ bytes, b.toNat < 0x80) :
    utf8From none offset bytes = (bytes.map fun b => Char.ofNat b.toNat, .clean) := by
  induction bytes generalizing offset with
  | nil => rfl
  | cons b rest ih =>
      have hb : b.toNat < 0x80 := h b List.mem_cons_self
      have hrest := ih (offset + 1) fun b hb => h b (List.mem_cons_of_mem _ hb)
      simp [utf8From, utf8First, hb, hrest]

end Text
end ContractAdmission
