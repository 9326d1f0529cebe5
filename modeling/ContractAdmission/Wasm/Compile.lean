import ContractAdmission.Interface
import ContractAdmission.Log
import ContractAdmission.Text.Decimal
import ContractAdmission.Wasm.Decode

/-!
# From a binary to an interface

A binary that is accepted has an interface: the names and kinds of what it lists
in its two sections of imports and exports.  Tags have no place in an interface,
so a binary that imports or exports one is refused, although it is well formed.
-/

namespace ContractAdmission

/-- Why bytes have no interface. -/
inductive CompileError where
  /-- The bytes do not begin as a binary does. -/
  | noMagic
  /-- The bytes are not a well formed binary. -/
  | malformed
  /-- The binary imports or exports a tag. -/
  | unsupportedExtern
  deriving DecidableEq, Repr

/-- The text that reports that bytes have no interface. -/
def CompileError.message : CompileError → String
  | .noMagic => "Unable to compile Wasm contract: missing Wasm magic header"
  | .malformed => "Unable to compile Wasm contract: <diagnostic>"
  | .unsupportedExtern => "Unsupported extern type: <wasmtime._types.TagType object>"

namespace Wasm

/-- The kind under which an interface lists an import. -/
def ExternType.kind? : ExternType → Option ExternKind
  | .function _ => some .function
  | .table _ => some .table
  | .memory _ => some .memory
  | .global _ => some .global
  | .tag _ => none

/-- The kind under which an interface lists an export. -/
def ExternIndex.kind? : ExternIndex → Option ExternKind
  | .function _ => some .function
  | .table _ => some .table
  | .memory _ => some .memory
  | .global _ => some .global
  | .tag _ => none

/-- The entry of an import in an interface. -/
def ImportDecl.listed? (decl : ImportDecl) : Option Import :=
  decl.type.kind?.map fun kind => ⟨decl.moduleName, decl.name, kind.label⟩

/-- The entry of an export in an interface. -/
def ExportDecl.listed? (decl : ExportDecl) : Option Export :=
  decl.target.kind?.map fun kind => ⟨decl.name, kind.label⟩

/-- The interface of a module, unless a tag is among its exports or imports. -/
def Module.interface? (module : Module) : Option Interface := do
  let exports ← module.exports.mapM (·.listed?)
  let imports ← module.imports.mapM (·.listed?)
  return ⟨exports, imports⟩

/-- The interface of a binary. -/
def compile (engine : Engine) (bytes : Bytes) : Except CompileError Interface :=
  if magic.isPrefixOf bytes then
    match Module.decode engine bytes with
    | none => .error .malformed
    | some module =>
        match module.interface? with
        | none => .error .unsupportedExtern
        | some iface => .ok iface
  else .error .noMagic

/-- The record of a binary that was accepted. -/
def compiledRecord (iface : Interface) : Record :=
  ⟨.debug, .compiler,
    "Compiled module with " ++ Text.decimal iface.exports.length ++ " exports and " ++
      Text.decimal iface.imports.length ++ " imports"⟩

end Wasm
end ContractAdmission
