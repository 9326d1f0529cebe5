import ContractAdmission.Wasm.Types

/-!
# Modules

What the sections of a binary have declared so far.  Each index space lists the
imported entities first and then the defined ones.
-/

namespace ContractAdmission
namespace Wasm

/-- What is imported, with its type.  The type of a function is a declared one. -/
inductive ExternType where
  | function (type : Nat)
  | table (type : TableType)
  | memory (type : MemoryType)
  | global (type : GlobalType)
  | tag (type : FunctionType)
  deriving DecidableEq, Repr

namespace ExternType

/-- The type of an imported function. -/
def function? : ExternType → Option Nat
  | .function type => some type
  | _ => none

/-- The type of an imported table. -/
def table? : ExternType → Option TableType
  | .table type => some type
  | _ => none

/-- The type of an imported memory. -/
def memory? : ExternType → Option MemoryType
  | .memory type => some type
  | _ => none

/-- The type of an imported global. -/
def global? : ExternType → Option GlobalType
  | .global type => some type
  | _ => none

/-- The type of an imported tag. -/
def tag? : ExternType → Option FunctionType
  | .tag type => some type
  | _ => none

end ExternType

/-- What is exported, by its index. -/
inductive ExternIndex where
  | function (index : Nat)
  | table (index : Nat)
  | memory (index : Nat)
  | global (index : Nat)
  | tag (index : Nat)
  deriving DecidableEq, Repr

/-- The function that is exported. -/
def ExternIndex.function? : ExternIndex → Option Nat
  | .function index => some index
  | _ => none

/-- An import as a binary declares it. -/
structure ImportDecl where
  moduleName : String
  name : String
  type : ExternType
  deriving DecidableEq, Repr

/-- An export as a binary declares it. -/
structure ExportDecl where
  name : String
  target : ExternIndex
  deriving DecidableEq, Repr

/-- The declarations of a module. -/
structure Module where
  /-- The number of leading places of the section order that are closed. -/
  closed : Nat := 0
  types : TypeTable := {}
  imports : List ImportDecl := []
  /-- The types of the functions, by their indices. -/
  functions : List Nat := []
  tables : List TableType := []
  memories : List MemoryType := []
  globals : List GlobalType := []
  tags : List FunctionType := []
  exports : List ExportDecl := []
  /-- The types of the elements of the element segments. -/
  elements : List ReferenceType := []
  /-- The functions that are named outside of bodies, to which bodies can refer. -/
  named : List Nat := []
  /-- The types of the functions whose bodies are still to come. -/
  bodiless : List FunctionType := []
  /-- The number of data segments that is announced and still to come. -/
  announced : Option Nat := none
  deriving DecidableEq, Repr

/-- The greatest number of tables of a module. -/
def maxTables : Nat := 100

/-- The greatest number of memories of a module. -/
def maxMemories (engine : Engine) : Nat :=
  if engine.multiMemory then 100 else 1

namespace Module

/-- The type of a function. -/
def functionType? (module : Module) (index : Nat) : Option FunctionType :=
  module.functions[index]?.bind module.types.function?

/-- Whether the index spaces stay within what an engine admits. -/
def withinLimits (engine : Engine) (module : Module) : Bool :=
  module.functions.length ≤ maxEntities && module.tables.length ≤ maxTables &&
    module.memories.length ≤ maxMemories engine &&
    module.globals.length ≤ maxEntities && module.tags.length ≤ maxEntities

/-- The module with imported entities, each in its index space. -/
def addImports (module : Module) (decls : List ImportDecl) : Module :=
  { module with
    imports := module.imports ++ decls
    functions := module.functions ++ decls.filterMap (·.type.function?)
    tables := module.tables ++ decls.filterMap (·.type.table?)
    memories := module.memories ++ decls.filterMap (·.type.memory?)
    globals := module.globals ++ decls.filterMap (·.type.global?)
    tags := module.tags ++ decls.filterMap (·.type.tag?) }

/-- Whether an index lies in its index space. -/
def hasIndex (module : Module) : ExternIndex → Bool
  | .function index => index < module.functions.length
  | .table index => index < module.tables.length
  | .memory index => index < module.memories.length
  | .global index => index < module.globals.length
  | .tag index => index < module.tags.length

end Module
end Wasm
end ContractAdmission
