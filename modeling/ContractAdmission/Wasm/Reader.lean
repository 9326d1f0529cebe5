/-!
# Reading bytes

A reader takes what it needs from the front of a list of bytes and hands on the
rest, or refuses.  Numbers are written in groups of seven bits, the lowest
first, each group but the last marked by a high bit; a number may be longer than
it has to be, up to the length that its width allows.
-/

namespace ContractAdmission

/-- A sequence of bytes. -/
abbrev Bytes := List UInt8

namespace Wasm

/-- The number of values that a number of bits can have. -/
def valueCount (bits : Nat) : Nat := Nat.pow 2 bits

/-- A computation that consumes bytes from the front and may refuse them. -/
abbrev Reader (α : Type) := StateT Bytes Option α

namespace Reader

/-- Refuse. -/
def refuse {α : Type} : Reader α := fun _ => none

/-- Go on only if a condition holds. -/
def require (condition : Prop) [Decidable condition] : Reader Unit :=
  fun bytes => if condition then some ((), bytes) else none

/-- Go on with a value that is there. -/
def expect {α : Type} : Option α → Reader α
  | none => refuse
  | some value => pure value

/-- The next byte. -/
def byte : Reader UInt8
  | [] => none
  | b :: rest => some (b, rest)

/-- A given number of bytes. -/
def take (count : Nat) : Reader Bytes := fun bytes =>
  let front := bytes.take count
  if front.length = count then some (front, bytes.drop count) else none

/-- An unsigned number of at most `bits` bits. -/
def unsigned : Nat → Reader Nat
  | bits + 8 => do
      let b ← byte
      if b.toNat < 0x80 then return b.toNat
      let high ← unsigned (bits + 1)
      return b.toNat - 0x80 + 0x80 * high
  | bits => do
      let b ← byte
      require (b.toNat < valueCount bits)
      return b.toNat

/-- The number that a group of seven bits stands for when its highest bit is the
sign. -/
def signedGroup (n : Nat) : Int :=
  if n < 0x40 then n else (n : Int) - 0x80

/-- A signed number of at most `bits` bits in two's complement. -/
def signed : Nat → Reader Int
  | bits + 8 => do
      let b ← byte
      if b.toNat < 0x80 then return signedGroup b.toNat
      let high ← signed (bits + 1)
      return (b.toNat : Int) - 0x80 + 0x80 * high
  | bits => do
      let b ← byte
      require (b.toNat < 0x80)
      let value := signedGroup b.toNat
      let bound : Int := valueCount (bits - 1)
      require (-bound ≤ value ∧ value < bound)
      return value

/-- An unsigned number of at most thirty-two bits. -/
def u32 : Reader Nat := unsigned 32

/-- An unsigned number of at most sixty-four bits. -/
def u64 : Reader Nat := unsigned 64

/-- A given number of items, one after the other. -/
def repeated {α : Type} (item : Reader α) : Nat → Reader (List α)
  | 0 => pure []
  | count + 1 => do
      let first ← item
      let rest ← repeated item count
      return first :: rest

/-- A count that does not exceed a limit, and then as many items. -/
def vector {α : Type} (limit : Nat) (item : Reader α) : Reader (List α) := do
  let count ← u32
  require (count ≤ limit)
  repeated item count

/-- The longest name, in bytes. -/
def maxNameBytes : Nat := 100000

/-- A name: its length in bytes and its encoding, which has to be well formed. -/
def name : Reader String := do
  let size ← u32
  require (size ≤ maxNameBytes)
  let bytes ← take size
  expect (String.fromUTF8? ⟨bytes.toArray⟩)

/-- Read all of the bytes and leave none. -/
def exactly {α : Type} (reader : Reader α) (bytes : Bytes) : Option α :=
  match reader bytes with
  | some (value, []) => some value
  | _ => none

end Reader
end Wasm
end ContractAdmission
