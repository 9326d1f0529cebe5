/-!
# The static interface of a contract module

What a contract offers and what it asks for: its exports and its imports, in
declaration order.  Names may repeat and a kind may be any word; the four kinds
that a binary can declare are those of `ExternKind`.
-/

namespace ContractAdmission

/-- The kinds of entity that a binary can export or import. -/
inductive ExternKind where
  | function
  | memory
  | global
  | table
  deriving DecidableEq, Repr

/-- The word under which an interface lists a kind. -/
def ExternKind.label : ExternKind → String
  | .function => "function"
  | .memory => "memory"
  | .global => "global"
  | .table => "table"

/-- One exported entity. -/
structure Export where
  name : String
  kind : String
  deriving DecidableEq, Repr

/-- One imported entity: the module that provides it and its name there. -/
structure Import where
  moduleName : String
  name : String
  kind : String
  deriving DecidableEq, Repr

/-- The module and the name of an import, joined by a full stop. -/
def Import.qualifiedName (entry : Import) : String :=
  entry.moduleName ++ "." ++ entry.name

/-- The exports and imports of a module, in declaration order. -/
structure Interface where
  exports : List Export := []
  imports : List Import := []
  deriving DecidableEq, Repr

namespace Interface

/-- The names of the exports, in declaration order. -/
def exportNames (iface : Interface) : List String :=
  iface.exports.map (·.name)

/-- The exports of one kind, in declaration order. -/
def exportsOfKind (iface : Interface) (kind : String) : List Export :=
  iface.exports.filter fun entry => entry.kind = kind

/-- The qualified names of the imports, in declaration order. -/
def qualifiedNames (iface : Interface) : List String :=
  iface.imports.map (·.qualifiedName)

end Interface
end ContractAdmission
