import ContractAdmission.Wasm.ConstExpr
import ContractAdmission.Wasm.Section
import ContractAdmission.Wasm.Typing

/-!
# Decoding of binaries

A binary is accepted when it is a header and well framed sections in the
standard order, each section is well formed in the light of the ones before it,
and every function that was declared has a body.  Custom sections may stand
anywhere and only their names are read.
-/

namespace ContractAdmission
namespace Wasm
namespace Module

open Reader

/-- Names of custom sections that belong to a retired interface format. -/
def retiredNames : List String :=
  ["webidl-bindings", "wasm-interface-types"]

/-- A custom section has a name, and nothing more is asked of it. -/
def customSection (bytes : Bytes) : Bool :=
  match name bytes with
  | some (title, _) => title ∉ retiredNames
  | none => false

/-- Groups of types, each of which may refer to the ones before it. -/
def typeGroups : Nat → TypeTable → Reader TypeTable
  | 0, types => pure types
  | count + 1, types => do
      let next ← expect (types.add? (← readGroup))
      require (next.types.length ≤ maxEntities)
      typeGroups count next

/-- The type section lists groups of types. -/
def typeSection (module : Module) : Reader Module := do
  let count ← u32
  require (count ≤ maxEntities)
  let types ← typeGroups count module.types
  return { module with types := types }

/-- The index of a type of functions. -/
def functionIndexType (module : Module) : Reader Nat := do
  let index ← u32
  require (module.types.function? index).isSome
  return index

/-- A function is known by the index of its type. -/
def functionType (module : Module) : Reader FunctionType := do
  expect (module.types.function? (← u32))

/-- A tag is a function type without results, after a zero byte. -/
def tagType (module : Module) : Reader FunctionType := do
  let form ← byte
  require (form.toNat = 0)
  let type ← module.functionType
  require (type.results = [])
  return type

/-- The type of a table that an engine admits. -/
def tableType (engine : Engine) (module : Module) : Reader TableType := do
  let type ← TableType.read module.types
  require (type.admitted engine)
  return type

/-- The type of a memory that an engine admits. -/
def memoryType (engine : Engine) : Reader MemoryType := do
  let type ← MemoryType.read
  require (type.admitted engine)
  return type

/-- The kind and the type of an imported entity. -/
def externType (engine : Engine) (module : Module) : Reader ExternType := do
  let kind ← byte
  match kind.toNat with
  | 0 => return .function (← module.functionIndexType)
  | 1 => return .table (← module.tableType engine)
  | 2 => return .memory (← memoryType engine)
  | 3 => return .global (← GlobalType.read module.types)
  | 4 => return .tag (← module.tagType)
  | _ => refuse

/-- One import: two names and what they stand for. -/
def importDecl (engine : Engine) (module : Module) : Reader ImportDecl := do
  let moduleName ← name
  let entity ← name
  let type ← module.externType engine
  return ⟨moduleName, entity, type⟩

/-- The import section. -/
def importSection (engine : Engine) (module : Module) : Reader Module := do
  let decls ← vector maxEntities (module.importDecl engine)
  let module := module.addImports decls
  require (module.withinLimits engine)
  return module

/-- The function section lists the types of the functions that have bodies. -/
def functionSection (engine : Engine) (module : Module) : Reader Module := do
  let indices ← vector maxEntities module.functionIndexType
  let module :=
    { module with
      functions := module.functions ++ indices
      bodiless := indices.filterMap module.types.function? }
  require (module.withinLimits engine)
  return module

/-- A constant expression that leaves a value of a type.  Bodies can refer to the
functions that it names. -/
def constant (engine : Engine) (type : ValueType) (module : Module) : Reader Module := do
  let expr ← ConstExpr.read engine
  require (expr.leaves module type)
  return { module with named := expr.functions ++ module.named }

/-- One table.  Where its elements cannot be null there is an expression for them
after two marking bytes. -/
def tableDef (engine : Engine) (module : Module) : Reader Module := fun bytes =>
  match bytes with
  | 0x40 :: 0x00 :: rest =>
      (do
        let type ← module.tableType engine
        let next ← module.constant engine (.reference type.element)
        return { next with tables := next.tables ++ [type] } : Reader Module) rest
  | _ =>
      (do
        let type ← module.tableType engine
        require type.element.nullable
        return { module with tables := module.tables ++ [type] } : Reader Module) bytes

/-- Tables, one after the other. -/
def tableDefs (engine : Engine) : Nat → Module → Reader Module
  | 0, module => pure module
  | count + 1, module => do
      tableDefs engine count (← module.tableDef engine)

/-- The table section. -/
def tableSection (engine : Engine) (module : Module) : Reader Module := do
  let count ← u32
  require (count ≤ maxTables)
  let module ← tableDefs engine count module
  require (module.withinLimits engine)
  return module

/-- The memory section. -/
def memorySection (engine : Engine) (module : Module) : Reader Module := do
  let memories ← vector (maxMemories engine) (memoryType engine)
  let module := { module with memories := module.memories ++ memories }
  require (module.withinLimits engine)
  return module

/-- The tag section. -/
def tagSection (engine : Engine) (module : Module) : Reader Module := do
  let tags ← vector maxEntities module.tagType
  let module := { module with tags := module.tags ++ tags }
  require (module.withinLimits engine)
  return module

/-- Globals, each of which may refer to the ones before it. -/
def globalDefs (engine : Engine) : Nat → Module → Reader Module
  | 0, module => pure module
  | count + 1, module => do
      let type ← GlobalType.read module.types
      let next ← module.constant engine type.value
      globalDefs engine count { next with globals := next.globals ++ [type] }

/-- The global section. -/
def globalSection (engine : Engine) (module : Module) : Reader Module := do
  let count ← u32
  require (count ≤ maxEntities)
  let module ← globalDefs engine count module
  require (module.withinLimits engine)
  return module

/-- What an export refers to. -/
def externIndex : Reader ExternIndex := do
  let kind ← byte
  let index ← u32
  match kind.toNat with
  | 0 => return .function index
  | 1 => return .table index
  | 2 => return .memory index
  | 3 => return .global index
  | 4 => return .tag index
  | _ => refuse

/-- One export: a name and the index of an entity that is there. -/
def exportDecl (module : Module) : Reader ExportDecl := do
  let entity ← name
  let target ← externIndex
  require (module.hasIndex target)
  return ⟨entity, target⟩

/-- Whether no text occurs twice in a list. -/
def allDistinct : List String → Bool
  | [] => true
  | first :: rest => first ∉ rest && allDistinct rest

/-- The export section, whose names are distinct. -/
def exportSection (module : Module) : Reader Module := do
  let decls ← vector maxEntities module.exportDecl
  require (allDistinct (decls.map (·.name)))
  let functions := decls.filterMap (·.target.function?)
  return { module with exports := decls, named := functions ++ module.named }

/-- The start function takes and leaves nothing. -/
def startSection (module : Module) : Reader Module := do
  let type ← expect (module.functionType? (← u32))
  require (type = ⟨[], []⟩)
  return module

/-- The greatest number of segments. -/
def maxSegments : Nat := 100000

/-- The greatest number of items in an element segment. -/
def maxElements : Nat := 10000000

/-- The index of a function that is there. -/
def functionIndex (module : Module) : Reader Nat := do
  let index ← u32
  require (index < module.functions.length)
  return index

/-- The place of an element segment, whose elements have to fit the table. -/
def elementPlace (engine : Engine) (index : Nat) (module : Module) :
    Reader (Module × ReferenceType) := do
  let table ← expect module.tables[index]?
  let next ← module.constant engine (addressType table.index64)
  return (next, table.element)

/-- Constant expressions that leave a value of a type. -/
def constants (engine : Engine) (type : ValueType) : Nat → Module → Reader Module
  | 0, module => pure module
  | count + 1, module => do
      constants engine type count (← module.constant engine type)

/-- The items of an element segment: expressions, or the indices of functions. -/
def elementItems (engine : Engine) (asExpressions : Bool) (element : ReferenceType)
    (module : Module) : Reader Module := do
  if asExpressions then
    let count ← u32
    require (count ≤ maxElements)
    constants engine (.reference element) count module
  else
    let functions ← vector maxElements module.functionIndex
    return { module with named := functions ++ module.named }

/-- The index of the table of an element segment: the first one if none is stated. -/
def elementTable (stated : Bool) : Reader Nat :=
  if stated then u32 else pure 0

/-- The module after the place of an element segment, and what the elements have to fit.
A segment without a place fits everywhere. -/
def elementTarget (engine : Engine) (placed : Bool) (index : Nat) (module : Module) :
    Reader (Module × Option ReferenceType) :=
  if placed then do
    let found ← module.elementPlace engine index
    return (found.1, some found.2)
  else return (module, none)

/-- The type of the elements of a segment, which is stated or else that of functions. -/
def elementType (stated asExpressions : Bool) (module : Module) : Reader ReferenceType :=
  if asExpressions then
    if stated then module.types.readReference else return .ofKind .function
  else if stated then do
    let kind ← byte
    require (kind.toNat = 0)
    return ⟨false, .kind .function⟩
  else return ⟨false, .kind .function⟩

/-- One element segment.  The lowest bit of its form says that it has no place,
the next one that more is stated of it, the third that its items are
expressions. -/
def elementSegment (engine : Engine) (module : Module) : Reader Module := do
  let form ← u32
  require (form < 8)
  let placed := !form.testBit 0
  let explicit := form.testBit 1
  let asExpressions := form.testBit 2
  let table ← elementTable (placed && explicit)
  let target ← module.elementTarget engine placed table
  let element ← target.1.elementType (explicit || !placed) asExpressions
  require (target.2.all (target.1.types.referenceFits element))
  let last ← target.1.elementItems engine asExpressions element
  return { last with elements := last.elements ++ [element] }

/-- Element segments, one after the other. -/
def elementSegments (engine : Engine) : Nat → Module → Reader Module
  | 0, module => pure module
  | count + 1, module => do
      elementSegments engine count (← module.elementSegment engine)

/-- The element section. -/
def elementSection (engine : Engine) (module : Module) : Reader Module := do
  let count ← u32
  require (count ≤ maxSegments)
  elementSegments engine count module

/-- The data count section announces the data segments. -/
def dataCountSection (module : Module) : Reader Module := do
  let count ← u32
  require (count ≤ maxSegments)
  return { module with announced := some count }

/-- The place of a data segment. -/
def dataPlace (engine : Engine) (module : Module) (index : Nat) : Reader Unit := do
  let memory ← expect module.memories[index]?
  let _ ← module.constant engine (addressType memory.index64)

/-- The place of a data segment, if its form says that it has one. -/
def dataTarget (engine : Engine) (module : Module) : Nat → Reader Unit
  | 0 => module.dataPlace engine 0
  | 1 => pure ()
  | 2 => do module.dataPlace engine (← u32)
  | _ => refuse

/-- One data segment. -/
def dataSegment (engine : Engine) (module : Module) : Reader Unit := do
  let form ← u32
  module.dataTarget engine form
  let size ← u32
  let _ ← take size

/-- The data section, with as many segments as were announced. -/
def dataSection (engine : Engine) (module : Module) : Reader Module := do
  let segments ← vector maxSegments (module.dataSegment engine)
  require (module.announced = none ∨ module.announced = some segments.length)
  return { module with announced := none }

/-- The greatest number of locals of a function. -/
def maxLocals : Nat := 50000

/-- The greatest number of bytes of a body. -/
def maxBodyBytes : Nat := 7654321

/-- The locals of a body, in groups of one type, of which `room` are left. -/
def localGroups (types : TypeTable) : Nat → Nat → Reader (List ValueType)
  | 0, _ => pure []
  | groups + 1, room => do
      let count ← u32
      require (count ≤ room)
      let type ← types.readValue
      let rest ← localGroups types groups (room - count)
      return List.replicate count type ++ rest

/-- One body: its size, its locals and its instructions. -/
def body (engine : Engine) (module : Module) (type : FunctionType) : Reader Unit := do
  let size ← u32
  require (size ≤ maxBodyBytes)
  let bytes ← take size
  let (locals, code) ← expect ((do
    let groups ← u32
    localGroups module.types groups (maxLocals - type.params.length) : Reader _) bytes)
  let instructions ← expect (Instruction.readAll engine code.length code)
  require (wellTyped module type locals instructions)

/-- Bodies for functions of given types. -/
def bodies (engine : Engine) (module : Module) : List FunctionType → Reader Unit
  | [] => pure ()
  | type :: rest => do
      module.body engine type
      module.bodies engine rest

/-- The code section has a body for every function that waits for one. -/
def codeSection (engine : Engine) (module : Module) : Reader Module := do
  let count ← u32
  require (count = module.bodiless.length)
  module.bodies engine module.bodiless
  return { module with bodiless := [] }

/-- The contents of a section that is not a custom one. -/
def sectionContents (engine : Engine) (module : Module) : SectionId → Reader Module
  | .custom => refuse
  | .types => module.typeSection
  | .imports => module.importSection engine
  | .functions => module.functionSection engine
  | .tables => module.tableSection engine
  | .memories => module.memorySection engine
  | .globals => module.globalSection engine
  | .exports => module.exportSection
  | .start => module.startSection
  | .elements => module.elementSection engine
  | .code => module.codeSection engine
  | .data => module.dataSection engine
  | .dataCount => module.dataCountSection
  | .tags => module.tagSection engine

/-- The module after one more section. -/
def addSection (engine : Engine) (module : Module) (part : Section) : Option Module :=
  match part.id with
  | .custom => if customSection part.contents then some module else none
  | id =>
      if module.closed ≤ id.rank then
        exactly (module.sectionContents engine id) part.contents |>.map fun next =>
          { next with closed := id.rank + 1 }
      else none

/-- Whether nothing that was declared or announced is still to come. -/
def complete (module : Module) : Bool :=
  module.bodiless.isEmpty && module.announced.getD 0 = 0

/-- The module that a list of sections declares. -/
def ofSections (engine : Engine) (parts : List Section) : Option Module := do
  let module ← parts.foldlM (addSection engine) {}
  if module.complete then some module else none

/-- The module that a binary declares. -/
def decode (engine : Engine) (bytes : Bytes) : Option Module := do
  ofSections engine (← Section.split bytes)

end Module
end Wasm
end ContractAdmission
