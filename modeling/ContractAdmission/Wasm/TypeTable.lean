import ContractAdmission.Wasm.ValueType

/-!
# Declared types

Types are declared in groups, and the types of a group can refer to each other.  Two
groups are the same when they say the same with the references into them counted
from their beginnings; a type that is declared again is the type that was declared
first.  In a table all indices are indices of first declarations, so two types of
values are the same type just when they are equal.

* `TypeTable.add?` adds a group, if its types may be declared.
* `TypeTable.fits` says when values of one type are values of another.
-/

namespace ContractAdmission
namespace Wasm

/-- What a field holds: a value, or a small whole number. -/
inductive Storage where
  | value (type : ValueType)
  | packed (bits : Nat)
  deriving DecidableEq, Repr

/-- A field of a structure or an array. -/
structure Field where
  storage : Storage
  isMutable : Bool
  deriving DecidableEq, Repr

/-- What is declared: functions, structures, or arrays. -/
inductive Shape where
  | function (type : FunctionType)
  | struct (fields : List Field)
  | array (element : Field)
  deriving DecidableEq, Repr

/-- A declared type, with the wider type that it names, if it does.  A final one is
not named by others. -/
structure TypeDef where
  isFinal : Bool
  parent : Option Nat
  shape : Shape
  deriving DecidableEq, Repr

namespace Storage

/-- Read what a field holds. -/
def read : Reader Storage := do
  let b ← Reader.byte
  match b.toNat with
  | 0x78 => return .packed 8
  | 0x77 => return .packed 16
  | _ => .value <$> ValueType.readAfter b

/-- Replace an index. -/
def reindex? (f : Nat → Option Nat) : Storage → Option Storage
  | .value type => (type.reindex? f).map .value
  | .packed bits => some (.packed bits)

/-- The type of the values that are put into a field. -/
def unpacked : Storage → ValueType
  | .value type => type
  | .packed _ => .i32

/-- Whether a field holds a small whole number. -/
def isPacked : Storage → Bool
  | .packed _ => true
  | .value _ => false

/-- The type of the references that a field holds, if it holds any. -/
def reference? : Storage → Option ReferenceType
  | .value (.reference type) => some type
  | _ => none

end Storage

namespace Field

/-- Read a field. -/
def read : Reader Field := do
  let storage ← Storage.read
  let flags ← Reader.byte
  Reader.require (flags.toNat < 2)
  return ⟨storage, flags.toNat = 1⟩

/-- Replace an index. -/
def reindex? (f : Nat → Option Nat) (field : Field) : Option Field :=
  (field.storage.reindex? f).map fun storage => { field with storage }

end Field

namespace Shape

/-- The greatest number of fields of a structure. -/
def maxFields : Nat := 10000

/-- Read what is declared under a byte. -/
def readAfter (b : UInt8) : Reader Shape :=
  match b.toNat with
  | 0x60 => .function <$> FunctionType.read
  | 0x5f => .struct <$> Reader.vector maxFields Field.read
  | 0x5e => .array <$> Field.read
  | _ => Reader.refuse

/-- Replace indices. -/
def reindex? (f : Nat → Option Nat) : Shape → Option Shape
  | .function type => (type.reindex? f).map .function
  | .struct fields => (fields.mapM (Field.reindex? f)).map .struct
  | .array element => (element.reindex? f).map .array

/-- The kind of what is declared. -/
def kind : Shape → HeapKind
  | .function _ => .function
  | .struct _ => .struct
  | .array _ => .array

end Shape

namespace TypeDef

/-- Read a declared type that begins with a byte: a shape, or more about it. -/
def readAfter (b : UInt8) : Reader TypeDef := do
  if b.toNat = 0x50 ∨ b.toNat = 0x4f then
    let parents ← Reader.vector 1 Reader.u32
    let shape ← Shape.readAfter (← Reader.byte)
    return ⟨b.toNat = 0x4f, parents.head?, shape⟩
  else return ⟨true, none, ← Shape.readAfter b⟩

/-- Read a declared type. -/
def read : Reader TypeDef := do
  readAfter (← Reader.byte)

/-- Replace indices. -/
def reindex? (f : Nat → Option Nat) (type : TypeDef) : Option TypeDef := do
  let parent ← type.parent.mapM f
  let shape ← type.shape.reindex? f
  return { type with parent, shape }

end TypeDef

/-- The greatest number of types, of imports, of exports, and of entities in any
other index space. -/
def maxEntities : Nat := 1000000

/-- Read a group of types.  A type that stands alone is a group of its own. -/
def readGroup : Reader (List TypeDef) := do
  let b ← Reader.byte
  if b.toNat = 0x4e then Reader.vector maxEntities TypeDef.read
  else return [← TypeDef.readAfter b]

/-- The declared types of a module. -/
structure TypeTable where
  types : List TypeDef := []
  /-- The index of the first declaration of each type. -/
  firsts : List Nat := []
  /-- The different groups with their places.  A reference into the group is the
  place there; to others the size of the group is added. -/
  groups : List (Nat × List TypeDef) := []
  deriving DecidableEq, Repr

namespace TypeTable

/-- What a declared type is. -/
def shape? (table : TypeTable) (index : Nat) : Option Shape :=
  table.types[index]?.map (·.shape)

/-- The type of functions that an index stands for. -/
def function? (table : TypeTable) (index : Nat) : Option FunctionType :=
  match table.shape? index with
  | some (.function type) => some type
  | _ => none

/-- The fields of the structure that an index stands for. -/
def fields? (table : TypeTable) (index : Nat) : Option (List Field) :=
  match table.shape? index with
  | some (.struct fields) => some fields
  | _ => none

/-- The elements of the array that an index stands for. -/
def element? (table : TypeTable) (index : Nat) : Option Field :=
  match table.shape? index with
  | some (.array element) => some element
  | _ => none

/-- The index of the first declaration of a type. -/
def first? (table : TypeTable) (index : Nat) : Option Nat := table.firsts[index]?

/-- A type of values as it is known in the table. -/
def value? (table : TypeTable) (type : ValueType) : Option ValueType :=
  type.reindex? table.first?

/-- A type of references as it is known in the table. -/
def reference? (table : TypeTable) (type : ReferenceType) : Option ReferenceType :=
  type.reindex? table.first?

/-- Read the type of a value. -/
def readValue (table : TypeTable) : Reader ValueType := do
  Reader.expect (table.value? (← ValueType.read))

/-- Read the type of a reference. -/
def readReference (table : TypeTable) : Reader ReferenceType := do
  Reader.expect (table.reference? (← ReferenceType.read))

/-- The greatest number of wider types that a type names one after the other. -/
def maxDepth : Nat := 63

/-- The number of wider types that a type names, up to a bound. -/
def depth (table : TypeTable) : Nat → Nat → Nat
  | 0, _ => 0
  | bound + 1, index =>
      match (table.types[index]?).bind (·.parent) with
      | some parent => depth table bound parent + 1
      | none => 0

/-- Whether a type is another, or names it as a wider one in so many steps. -/
def descends (table : TypeTable) : Nat → Nat → Nat → Bool
  | 0, first, second => first = second
  | bound + 1, first, second =>
      first = second ||
        match (table.types[first]?).bind (·.parent) with
        | some parent => descends table bound parent second
        | none => false

/-- Whether all that one reference can refer to another can refer to. -/
def heapFits (table : TypeTable) : HeapType → HeapType → Bool
  | .unknown, _ => true
  | .kind first, .kind second => first.fits second
  | .declared first, .declared second => table.descends maxDepth first second
  | .declared index, .kind kind =>
      ((table.shape? index).map fun shape => shape.kind.fits kind).getD false
  | .kind kind, .declared index =>
      ((table.shape? index).map fun shape => decide (kind = shape.kind.bottom)).getD false
  | _, .unknown => false

/-- Whether references of one type are references of another. -/
def referenceFits (table : TypeTable) (first second : ReferenceType) : Bool :=
  (!first.nullable || second.nullable) && table.heapFits first.heap second.heap

/-- Whether values of one type are values of another. -/
def fits (table : TypeTable) : ValueType → ValueType → Bool
  | .reference first, .reference second => table.referenceFits first second
  | first, second => first = second

/-- Whether values of some types are values of others, one by one. -/
def allFit (table : TypeTable) (first second : List ValueType) : Bool :=
  first.length = second.length && (first.zip second).all fun pair => table.fits pair.1 pair.2

/-- A type is itself, in any number of steps. -/
theorem descends_refl (table : TypeTable) (bound index : Nat) :
    table.descends bound index index = true := by
  cases bound <;> simp [descends]

/-- All that a reference can refer to it can refer to. -/
theorem heapFits_refl (table : TypeTable) (heap : HeapType) :
    table.heapFits heap heap = true := by
  cases heap <;> simp [heapFits, HeapKind.fits, descends_refl]

/-- Values of a type are values of the type. -/
theorem fits_refl (table : TypeTable) (type : ValueType) : table.fits type type = true := by
  cases type <;> simp [fits, referenceFits, heapFits_refl]

/-- Values of some types are values of the same types. -/
theorem allFit_refl (table : TypeTable) (types : List ValueType) :
    table.allFit types types = true := by
  simp only [allFit, decide_true, Bool.true_and, List.all_eq_true]
  intro pair hpair
  rw [List.zip_eq_zipWith] at hpair
  simp only [List.zipWith_self, List.mem_map] at hpair
  obtain ⟨type, _, rfl⟩ := hpair
  exact fits_refl table type

/-- Whether what one field holds can be held by another. -/
def storageFits (table : TypeTable) : Storage → Storage → Bool
  | .value first, .value second => table.fits first second
  | first, second => first = second

/-- Whether a field can stand for another.  A field that changes has to hold just
the same. -/
def fieldFits (table : TypeTable) (first second : Field) : Bool :=
  first.isMutable = second.isMutable &&
    if first.isMutable then first.storage = second.storage
    else table.storageFits first.storage second.storage

/-- Whether a shape can stand for another.  A structure may have more fields. -/
def shapeFits (table : TypeTable) : Shape → Shape → Bool
  | .function first, .function second =>
      table.allFit second.params first.params && table.allFit first.results second.results
  | .struct first, .struct second =>
      second.length ≤ first.length &&
        (first.zip second).all fun pair => table.fieldFits pair.1 pair.2
  | .array first, .array second => table.fieldFits first second
  | _, _ => false

/-- Whether a type at an index may name the wider type that it names. -/
def admits (table : TypeTable) (index : Nat) (type : TypeDef) : Bool :=
  match type.parent with
  | none => true
  | some parent =>
      match table.types[parent]?, table.types[index]? with
      | some wider, some known =>
          parent < index && !wider.isFinal && table.shapeFits known.shape wider.shape &&
            table.depth (maxDepth + 1) index ≤ maxDepth
      | _, _ => false

/-- A group with the references into it counted from its beginning, and the size of
the group added to all others. -/
def relative? (table : TypeTable) (group : List TypeDef) : Option (List TypeDef) :=
  let place := table.types.length
  group.mapM fun type => type.reindex? fun index =>
    if index < place then (table.first? index).map (group.length + ·)
    else if index < place + group.length then some (index - place)
    else none

/-- The table with one more group, if the types in it may be declared. -/
def add? (table : TypeTable) (group : List TypeDef) : Option TypeTable := do
  let place := table.types.length
  let size := group.length
  let relative ← table.relative? group
  let known := table.groups.find? fun entry => entry.2 = relative
  let start := (known.map (·.1)).getD place
  let absolute ← relative.mapM fun type => type.reindex? fun index =>
    some (if index < size then start + index else index - size)
  let next : TypeTable :=
    { types := table.types ++ absolute
      firsts := table.firsts ++ (List.range size).map (start + ·)
      groups := if known.isSome then table.groups else table.groups ++ [(place, relative)] }
  if group.zipIdx.all fun entry => next.admits (place + entry.2) entry.1 then some next
  else none

/-- The widest kind that holds what a reference refers to. -/
def topKind? (table : TypeTable) : HeapType → Option HeapKind
  | .kind kind => some kind.top
  | .declared index => (table.shape? index).map fun shape => shape.kind.top
  | .unknown => none

/-- References that are not null, to what is of a declared type. -/
def toDeclared? (table : TypeTable) (index : Nat) : Option ReferenceType :=
  (table.first? index).map fun first => ⟨false, .declared first⟩

end TypeTable
end Wasm
end ContractAdmission
