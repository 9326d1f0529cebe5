import ContractAdmission.Proofs.Wasm.Grammar
import ContractAdmission.Wasm.Compile

/-!
# Blueprints of binaries

A blueprint lists what a binary declares, section by section.  An encoding of it is any
binary in the standard format that declares just this, in this order, with every number
written in any form that the format allows and empty sections left out or not.

* `Blueprint.Encoding` is the format, and mentions no reader.
* `Blueprint.Sized` says that a blueprint stays within the limits of the engine.
* `Blueprint.interface` is what a blueprint lists of imports and exports, and
  `Blueprint.HasTag` says that a tag is among them.

Bodies end at once with an instruction that is never left, and globals begin with a
zero or with null: neither is seen in an interface.  Types of values that refer to
declared types are left out, and so are the sections that say nothing about imports and
exports.
-/

namespace ContractAdmission
namespace Wasm

/-- The byte that stands for a kind, and for references of the kind or null. -/
def HeapKind.code : HeapKind → UInt8
  | .function => 0x70
  | .noFunction => 0x73
  | .external => 0x6f
  | .noExternal => 0x72
  | .exception => 0x69
  | .noException => 0x74
  | .any => 0x6e
  | .eq => 0x6d
  | .i31 => 0x6c
  | .struct => 0x6b
  | .array => 0x6a
  | .noObject => 0x71

/-- Bytes that stand for a type of references. -/
inductive ReferenceForm : ReferenceType → Bytes → Prop
  | ofKind (kind : HeapKind) : ReferenceForm (.ofKind kind) [kind.code]

/-- Bytes that stand for a type of values. -/
inductive ValueForm : ValueType → Bytes → Prop
  | i32 : ValueForm .i32 [0x7f]
  | i64 : ValueForm .i64 [0x7e]
  | f32 : ValueForm .f32 [0x7d]
  | f64 : ValueForm .f64 [0x7c]
  | v128 : ValueForm .v128 [0x7b]
  | reference {type : ReferenceType} {bytes : Bytes} (form : ReferenceForm type bytes) :
      ValueForm (.reference type) bytes

/-- Bytes that stand for a type of functions. -/
def SignatureForm (type : FunctionType) (bytes : Bytes) : Prop :=
  ∃ params results, Counted ValueForm type.params params ∧
    Counted ValueForm type.results results ∧ bytes = 0x60 :: (params ++ results)

/-- The byte before limits: whether there is a greatest size, whether what is limited is
shared, and whether its addresses are wide. -/
def limitFlags (limits : Limits) (shared index64 : Bool) : UInt8 :=
  (if limits.greatest.isSome then 1 else 0) + (if shared then 2 else 0) +
    (if index64 then 4 else 0)

/-- Bytes that stand for limits. -/
inductive LimitsForm (bits : Nat) : Limits → Bytes → Prop
  | least {least : Nat} {bytes : Bytes} (form : Unsigned bits least bytes) :
      LimitsForm bits ⟨least, none⟩ bytes
  | both {least greatest : Nat} {first second : Bytes} (form : Unsigned bits least first)
      (form' : Unsigned bits greatest second) :
      LimitsForm bits ⟨least, some greatest⟩ (first ++ second)

/-- Bytes that stand for the type of a table. -/
def TableForm (type : TableType) (bytes : Bytes) : Prop :=
  ∃ element limits, ReferenceForm type.element element ∧
    LimitsForm (addressBits type.index64) type.limits limits ∧
    bytes = element ++ limitFlags type.limits type.shared type.index64 :: limits

/-- Bytes that stand for the type of a memory with pages of the common size. -/
def MemoryForm (type : MemoryType) (bytes : Bytes) : Prop :=
  ∃ limits, type.pageBits = none ∧
    LimitsForm (addressBits type.index64) type.limits limits ∧
    bytes = limitFlags type.limits type.shared type.index64 :: limits

/-- Bytes that stand for the type of a global. -/
def GlobalForm (type : GlobalType) (bytes : Bytes) : Prop :=
  ∃ value, ValueForm type.value value ∧ bytes = value ++ [if type.isMutable then 1 else 0]

/-- Bytes that stand for one of some types of functions by its index. -/
def IndexForm (types : List FunctionType) (index : Nat) (bytes : Bytes) : Prop :=
  index < types.length ∧ U32 index bytes

/-- Bytes that stand for a tag, which has one of some types of functions. -/
def TagForm (types : List FunctionType) (type : FunctionType) (bytes : Bytes) : Prop :=
  ∃ index rest, types[index]? = some type ∧ U32 index rest ∧ bytes = 0x00 :: rest

/-- Bytes that stand for what is imported. -/
inductive ExternForm (types : List FunctionType) : ExternType → Bytes → Prop
  | function {index : Nat} {bytes : Bytes} (form : IndexForm types index bytes) :
      ExternForm types (.function index) (0x00 :: bytes)
  | table {type : TableType} {bytes : Bytes} (form : TableForm type bytes) :
      ExternForm types (.table type) (0x01 :: bytes)
  | memory {type : MemoryType} {bytes : Bytes} (form : MemoryForm type bytes) :
      ExternForm types (.memory type) (0x02 :: bytes)
  | global {type : GlobalType} {bytes : Bytes} (form : GlobalForm type bytes) :
      ExternForm types (.global type) (0x03 :: bytes)
  | tag {type : FunctionType} {bytes : Bytes} (form : TagForm types type bytes) :
      ExternForm types (.tag type) (0x04 :: bytes)

/-- Bytes that stand for an import. -/
def ImportForm (types : List FunctionType) (decl : ImportDecl) (bytes : Bytes) : Prop :=
  ∃ moduleName name type, NameForm decl.moduleName moduleName ∧ NameForm decl.name name ∧
    ExternForm types decl.type type ∧ bytes = moduleName ++ (name ++ type)

/-- Bytes that stand for a constant of a type, with the end mark. -/
inductive ConstantForm : ValueType → Bytes → Prop
  | i32 : ConstantForm .i32 [0x41, 0x00, 0x0b]
  | i64 : ConstantForm .i64 [0x42, 0x00, 0x0b]
  | f32 : ConstantForm .f32 [0x43, 0x00, 0x00, 0x00, 0x00, 0x0b]
  | f64 : ConstantForm .f64 [0x44, 0x00, 0x00, 0x00, 0x00, 0x00, 0x00, 0x00, 0x00, 0x0b]
  | v128 : ConstantForm .v128 (0xfd :: 0x0c :: (List.replicate 16 0x00 ++ [0x0b]))
  | null (kind : HeapKind) :
      ConstantForm (.reference (.ofKind kind)) [0xd0, kind.code, 0x0b]

/-- Bytes that stand for a global with its first value. -/
def GlobalDefForm (type : GlobalType) (bytes : Bytes) : Prop :=
  ∃ form value, GlobalForm type form ∧ ConstantForm type.value value ∧ bytes = form ++ value

/-- Bytes that stand for what is exported. -/
inductive TargetForm : ExternIndex → Bytes → Prop
  | function {index : Nat} {bytes : Bytes} (form : U32 index bytes) :
      TargetForm (.function index) (0x00 :: bytes)
  | table {index : Nat} {bytes : Bytes} (form : U32 index bytes) :
      TargetForm (.table index) (0x01 :: bytes)
  | memory {index : Nat} {bytes : Bytes} (form : U32 index bytes) :
      TargetForm (.memory index) (0x02 :: bytes)
  | global {index : Nat} {bytes : Bytes} (form : U32 index bytes) :
      TargetForm (.global index) (0x03 :: bytes)
  | tag {index : Nat} {bytes : Bytes} (form : U32 index bytes) :
      TargetForm (.tag index) (0x04 :: bytes)

/-- Bytes that stand for an export. -/
def ExportForm (decl : ExportDecl) (bytes : Bytes) : Prop :=
  ∃ name target, NameForm decl.name name ∧ TargetForm decl.target target ∧
    bytes = name ++ target

/-- Bytes that stand for a body: its size, no locals, and an instruction that is never
left. -/
def BodyForm (bytes : Bytes) : Prop :=
  ∃ size locals, U32 (locals.length + 2) size ∧ U32 0 locals ∧
    bytes = size ++ (locals ++ [0x00, 0x0b])

/-- Bytes that stand for the section of a list.  The section of an empty list may be
left out. -/
inductive PartForm {α : Type} (code : UInt8) (form : α → Bytes → Prop) :
    List α → Bytes → Prop
  | leftOut : PartForm code form [] []
  | there {values : List α} {size contents : Bytes} (counted : Counted form values contents)
      (sized : U32 contents.length size) :
      PartForm code form values (code :: (size ++ contents))

/-- What a binary declares, section by section. -/
structure Blueprint where
  types : List FunctionType := []
  imports : List ImportDecl := []
  /-- The types of the functions with bodies. -/
  functions : List Nat := []
  tables : List TableType := []
  memories : List MemoryType := []
  tags : List FunctionType := []
  globals : List GlobalType := []
  exports : List ExportDecl := []

namespace Blueprint

/-- The sections of a binary that declares what a blueprint lists. -/
structure Encoding (plan : Blueprint) where
  types : Bytes
  imports : Bytes
  functions : Bytes
  tables : Bytes
  memories : Bytes
  tags : Bytes
  globals : Bytes
  exports : Bytes
  code : Bytes
  typesForm : PartForm 1 SignatureForm plan.types types
  importsForm : PartForm 2 (ImportForm plan.types) plan.imports imports
  functionsForm : PartForm 3 (IndexForm plan.types) plan.functions functions
  tablesForm : PartForm 4 TableForm plan.tables tables
  memoriesForm : PartForm 5 MemoryForm plan.memories memories
  tagsForm : PartForm 13 (TagForm plan.types) plan.tags tags
  globalsForm : PartForm 6 GlobalDefForm plan.globals globals
  exportsForm : PartForm 7 ExportForm plan.exports exports
  codeForm : PartForm 10 (fun _ => BodyForm) plan.functions code

/-- The binary with the sections of an encoding. -/
def Encoding.bytes {plan : Blueprint} (encoding : plan.Encoding) : Bytes :=
  header ++ (encoding.types ++ (encoding.imports ++ (encoding.functions ++
    (encoding.tables ++ (encoding.memories ++ (encoding.tags ++ (encoding.globals ++
      (encoding.exports ++ encoding.code))))))))

/-- The types of all functions, the imported ones first. -/
def allFunctions (plan : Blueprint) : List Nat :=
  plan.imports.filterMap (·.type.function?) ++ plan.functions

/-- The types of all tables, the imported ones first. -/
def allTables (plan : Blueprint) : List TableType :=
  plan.imports.filterMap (·.type.table?) ++ plan.tables

/-- The types of all memories, the imported ones first. -/
def allMemories (plan : Blueprint) : List MemoryType :=
  plan.imports.filterMap (·.type.memory?) ++ plan.memories

/-- The types of all globals, the imported ones first. -/
def allGlobals (plan : Blueprint) : List GlobalType :=
  plan.imports.filterMap (·.type.global?) ++ plan.globals

/-- The types of all tags, the imported ones first. -/
def allTags (plan : Blueprint) : List FunctionType :=
  plan.imports.filterMap (·.type.tag?) ++ plan.tags

/-- Whether an index stands for something that a blueprint declares. -/
def Has (plan : Blueprint) : ExternIndex → Prop
  | .function index => index < plan.allFunctions.length
  | .table index => index < plan.allTables.length
  | .memory index => index < plan.allMemories.length
  | .global index => index < plan.allGlobals.length
  | .tag index => index < plan.allTags.length

end Blueprint

/-- A table whose sizes are in order and that is not shared. -/
structure TableType.Sized (type : TableType) : Prop where
  ordered : ∀ greatest ∈ type.limits.greatest, type.limits.least ≤ greatest
  notShared : type.shared = false

/-- A memory whose sizes are in order and within what its addresses can reach.  A shared
one has a greatest size. -/
structure MemoryType.Sized (type : MemoryType) : Prop where
  ordered : ∀ greatest ∈ type.limits.greatest, type.limits.least ≤ greatest
  leastReached : type.limits.least ≤ valueCount (if type.index64 then 48 else 16)
  greatestReached : ∀ greatest ∈ type.limits.greatest,
    greatest ≤ valueCount (if type.index64 then 48 else 16)
  sharedBounded : type.shared = true → type.limits.greatest ≠ none

/-- A blueprint within the limits of the engine, whose exports have different names and
refer to what is there. -/
structure Blueprint.Sized (plan : Blueprint) : Prop where
  distinctNames : (plan.exports.map (·.name)).Nodup
  targetsThere : ∀ decl ∈ plan.exports, plan.Has decl.target
  tagsLeaveNothing : ∀ type ∈ plan.allTags, type.results = []
  tablesSized : ∀ type ∈ plan.allTables, type.Sized
  memoriesSized : ∀ type ∈ plan.allMemories, type.Sized
  importNames : ∀ decl ∈ plan.imports,
    decl.moduleName.utf8ByteSize ≤ 100000 ∧ decl.name.utf8ByteSize ≤ 100000
  exportNames : ∀ decl ∈ plan.exports, decl.name.utf8ByteSize ≤ 100000
  arities : ∀ type ∈ plan.types, type.params.length ≤ 1000 ∧ type.results.length ≤ 1000
  typeCount : plan.types.length ≤ 1000000
  importCount : plan.imports.length ≤ 1000000
  exportCount : plan.exports.length ≤ 1000000
  functionCount : plan.allFunctions.length ≤ 1000000
  tableCount : plan.allTables.length ≤ 100
  memoryCount : plan.allMemories.length ≤ 100
  globalCount : plan.allGlobals.length ≤ 1000000
  tagCount : plan.allTags.length ≤ 1000000

/-- The word for the kind of what is imported. -/
def ExternType.word : ExternType → String
  | .function _ => "function"
  | .table _ => "table"
  | .memory _ => "memory"
  | .global _ => "global"
  | .tag _ => "tag"

/-- The word for the kind of what is exported. -/
def ExternIndex.word : ExternIndex → String
  | .function _ => "function"
  | .table _ => "table"
  | .memory _ => "memory"
  | .global _ => "global"
  | .tag _ => "tag"

namespace Blueprint

/-- The names and kinds that a blueprint lists, in its order. -/
def interface (plan : Blueprint) : Interface where
  exports := plan.exports.map fun decl => ⟨decl.name, decl.target.word⟩
  imports := plan.imports.map fun decl => ⟨decl.moduleName, decl.name, decl.type.word⟩

/-- Whether a tag is imported or exported. -/
def HasTag (plan : Blueprint) : Prop :=
  (∃ decl ∈ plan.imports, decl.type.word = "tag") ∨
    ∃ decl ∈ plan.exports, decl.target.word = "tag"

end Blueprint
end Wasm
end ContractAdmission
