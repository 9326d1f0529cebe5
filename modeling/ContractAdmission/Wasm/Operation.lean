import ContractAdmission.Wasm.ValueType

/-!
# Operations

What the plain operations take and leave, by their codes.  An operation is plain
when it depends on nothing but its operands: arithmetic on numbers and on vectors,
and accesses to memory but for the address.  Codes are looked up in the three pages
that they come in.
-/

namespace ContractAdmission
namespace Wasm
namespace Operation

/-- The operands and the results of an operation. -/
abbrev Signature := List ValueType × List ValueType

/-- The operands and the result of the numeric instruction of a code. -/
def numericType? (code : Nat) : Option Signature :=
  let within (low high : Nat) : Bool := low ≤ code && code ≤ high
  if code = 0x45 then some ([.i32], [.i32])
  else if within 0x46 0x4f then some ([.i32, .i32], [.i32])
  else if code = 0x50 then some ([.i64], [.i32])
  else if within 0x51 0x5a then some ([.i64, .i64], [.i32])
  else if within 0x5b 0x60 then some ([.f32, .f32], [.i32])
  else if within 0x61 0x66 then some ([.f64, .f64], [.i32])
  else if within 0x67 0x69 then some ([.i32], [.i32])
  else if within 0x6a 0x78 then some ([.i32, .i32], [.i32])
  else if within 0x79 0x7b then some ([.i64], [.i64])
  else if within 0x7c 0x8a then some ([.i64, .i64], [.i64])
  else if within 0x8b 0x91 then some ([.f32], [.f32])
  else if within 0x92 0x98 then some ([.f32, .f32], [.f32])
  else if within 0x99 0x9f then some ([.f64], [.f64])
  else if within 0xa0 0xa6 then some ([.f64, .f64], [.f64])
  else if code = 0xa7 then some ([.i64], [.i32])
  else if within 0xa8 0xa9 then some ([.f32], [.i32])
  else if within 0xaa 0xab then some ([.f64], [.i32])
  else if within 0xac 0xad then some ([.i32], [.i64])
  else if within 0xae 0xaf then some ([.f32], [.i64])
  else if within 0xb0 0xb1 then some ([.f64], [.i64])
  else if within 0xb2 0xb3 then some ([.i32], [.f32])
  else if within 0xb4 0xb5 then some ([.i64], [.f32])
  else if code = 0xb6 then some ([.f64], [.f32])
  else if within 0xb7 0xb8 then some ([.i32], [.f64])
  else if within 0xb9 0xba then some ([.i64], [.f64])
  else if code = 0xbb then some ([.f32], [.f64])
  else if code = 0xbc then some ([.f32], [.i32])
  else if code = 0xbd then some ([.f64], [.i64])
  else if code = 0xbe then some ([.i32], [.f32])
  else if code = 0xbf then some ([.i64], [.f64])
  else if within 0xc0 0xc1 then some ([.i32], [.i32])
  else if within 0xc2 0xc4 then some ([.i64], [.i64])
  else none

/-- The operand and the result of a conversion that saturates. -/
def saturatingType? (code : Nat) : Option Signature :=
  match code with
  | 0 | 1 => some ([.f32], [.i32])
  | 2 | 3 => some ([.f64], [.i32])
  | 4 | 5 => some ([.f32], [.i64])
  | 6 | 7 => some ([.f64], [.i64])
  | _ => none

/-- The type that the load of a code leaves, and the width of the access as a
power of two. -/
def loadType? (code : Nat) : Option (ValueType × Nat) :=
  match code with
  | 0x28 => some (.i32, 2)
  | 0x29 => some (.i64, 3)
  | 0x2a => some (.f32, 2)
  | 0x2b => some (.f64, 3)
  | 0x2c | 0x2d => some (.i32, 0)
  | 0x2e | 0x2f => some (.i32, 1)
  | 0x30 | 0x31 => some (.i64, 0)
  | 0x32 | 0x33 => some (.i64, 1)
  | 0x34 | 0x35 => some (.i64, 2)
  | _ => none

/-- The type that the store of a code takes, and the width of the access as a
power of two. -/
def storeType? (code : Nat) : Option (ValueType × Nat) :=
  match code with
  | 0x36 => some (.i32, 2)
  | 0x37 => some (.i64, 3)
  | 0x38 => some (.f32, 2)
  | 0x39 => some (.f64, 3)
  | 0x3a => some (.i32, 0)
  | 0x3b => some (.i32, 1)
  | 0x3c => some (.i64, 0)
  | 0x3d => some (.i64, 1)
  | 0x3e => some (.i64, 2)
  | _ => none

/-- Whether a code lies in one of some closed ranges. -/
def inRanges (code : Nat) (ranges : List (Nat × Nat)) : Bool :=
  ranges.any fun range => range.1 ≤ code && code ≤ range.2

/-- The codes of the operations on one vector that leave a vector. -/
def unaryVectors : List (Nat × Nat) :=
  [(77, 77), (94, 98), (103, 106), (116, 117), (122, 122), (124, 129), (135, 138), (148, 148),
    (160, 161), (167, 170), (192, 193), (199, 202), (224, 225), (227, 227), (236, 237),
    (239, 239), (248, 255), (257, 260)]

/-- The codes of the operations on two vectors that leave a vector. -/
def binaryVectors : List (Nat × Nat) :=
  [(14, 14), (35, 76), (78, 81), (101, 102), (110, 115), (118, 121), (123, 123), (130, 130),
    (133, 134), (142, 147), (149, 153), (155, 159), (174, 174), (177, 177), (181, 186),
    (188, 191), (206, 206), (209, 209), (213, 223), (228, 235), (240, 247), (256, 256),
    (269, 274)]

/-- The codes of the operations on three vectors that leave a vector. -/
def ternaryVectors : List (Nat × Nat) := [(82, 82), (261, 268), (275, 275)]

/-- The codes of the operations on one vector that leave a number. -/
def vectorTests : List (Nat × Nat) :=
  [(83, 83), (99, 100), (131, 132), (163, 164), (195, 196)]

/-- The codes of the operations that shift the lanes of a vector. -/
def vectorShifts : List (Nat × Nat) := [(107, 109), (139, 141), (171, 173), (203, 205)]

/-- The operands and the result of the operation on vectors of a code. -/
def vectorType? (code : Nat) : Option Signature :=
  if code = 15 ∨ code = 16 ∨ code = 17 then some ([.i32], [.v128])
  else if code = 18 then some ([.i64], [.v128])
  else if code = 19 then some ([.f32], [.v128])
  else if code = 20 then some ([.f64], [.v128])
  else if inRanges code unaryVectors then some ([.v128], [.v128])
  else if inRanges code binaryVectors then some ([.v128, .v128], [.v128])
  else if inRanges code ternaryVectors then some ([.v128, .v128, .v128], [.v128])
  else if inRanges code vectorTests then some ([.v128], [.i32])
  else if inRanges code vectorShifts then some ([.v128, .i32], [.v128])
  else none

/-- The number of lanes that the operation of a code tells apart, and what it takes
and leaves. -/
def laneType? (code : Nat) : Option (Nat × Signature) :=
  match code with
  | 21 | 22 => some (16, [.v128], [.i32])
  | 23 => some (16, [.v128, .i32], [.v128])
  | 24 | 25 => some (8, [.v128], [.i32])
  | 26 => some (8, [.v128, .i32], [.v128])
  | 27 => some (4, [.v128], [.i32])
  | 28 => some (4, [.v128, .i32], [.v128])
  | 29 => some (2, [.v128], [.i64])
  | 30 => some (2, [.v128, .i64], [.v128])
  | 31 => some (4, [.v128], [.f32])
  | 32 => some (4, [.v128, .f32], [.v128])
  | 33 => some (2, [.v128], [.f64])
  | 34 => some (2, [.v128, .f64], [.v128])
  | _ => none

/-- The width of the access of a code as a power of two, and what it takes after
the address and leaves. -/
def vectorAccess? (code : Nat) : Option (Nat × Signature) :=
  match code with
  | 0 => some (4, [], [.v128])
  | 1 | 2 | 3 | 4 | 5 | 6 | 10 | 93 => some (3, [], [.v128])
  | 7 => some (0, [], [.v128])
  | 8 => some (1, [], [.v128])
  | 9 | 92 => some (2, [], [.v128])
  | 11 => some (4, [.v128], [])
  | _ => none

/-- The width of the access to one lane of a code as a power of two, and what it
takes after the address and leaves. -/
def laneAccess? (code : Nat) : Option (Nat × Signature) :=
  if 84 ≤ code ∧ code ≤ 87 then some (code - 84, [.v128], [.v128])
  else if 88 ≤ code ∧ code ≤ 91 then some (code - 88, [.v128], [])
  else none

/-- The types and widths in which an atomic operation comes, in order. -/
def atomicForms : List (ValueType × Nat) :=
  [(.i32, 2), (.i64, 3), (.i32, 0), (.i32, 1), (.i64, 0), (.i64, 1), (.i64, 2)]

/-- The width of the atomic access of a code as a power of two, and what it takes
after the address and leaves.  The first group of codes reads, the second writes,
the last compares; the others combine. -/
def atomicAccess? (code : Nat) : Option (Nat × Signature) :=
  match code with
  | 0 => some (2, [.i32], [.i32])
  | 1 => some (2, [.i32, .i64], [.i32])
  | 2 => some (3, [.i64, .i64], [.i32])
  | _ =>
      if 0x10 ≤ code ∧ code ≤ 0x4e then
        (atomicForms[(code - 0x10) % 7]?).map fun form =>
          (form.2,
            match (code - 0x10) / 7 with
            | 0 => ([], [form.1])
            | 1 => ([form.1], [])
            | 8 => ([form.1, form.1], [form.1])
            | _ => ([form.1], [form.1]))
      else none

end Operation
end Wasm
end ContractAdmission
