import ContractAdmission.Wasm.Frame
import ContractAdmission.Wasm.Instruction
import ContractAdmission.Wasm.Module

/-!
# Typing of instructions

A body is typed by running over its instructions with the types of the values
that they take and leave.  Instructions on one kind of thing are typed by one
function, which gives nothing for the others.

* `wellTyped` says whether instructions take and leave what a type says.
-/

namespace ContractAdmission
namespace Wasm

namespace Module

/-- The function type that a block type stands for. -/
def blockType? (module : Module) : BlockType → Option FunctionType
  | .empty => some ⟨[], []⟩
  | .result type => (module.types.value? type).map fun type => ⟨[], [type]⟩
  | .indexed index => module.types.function? index

/-- The type of the addresses of a memory. -/
def memoryAddress? (module : Module) (index : Nat) : Option ValueType :=
  module.memories[index]?.map fun memory => addressType memory.index64

/-- The type of the places in a table, and the type of what is there. -/
def tablePlace? (module : Module) (index : Nat) : Option (ValueType × ValueType) :=
  module.tables[index]?.map fun table => (addressType table.index64, .reference table.element)

/-- The type of the addresses of the memory of an access, whose alignment does
not exceed its width, or has to be its width, and whose offset is an address. -/
def accessType? (module : Module) (width : Nat) (aligned : Bool) (place : Access) :
    Option ValueType :=
  match module.memories[place.memory]? with
  | none => none
  | some memory =>
      if (place.alignment = width ∨ (place.alignment < width ∧ aligned = false)) ∧
          place.offset < valueCount (addressBits memory.index64) then
        some (addressType memory.index64)
      else none

/-- Whether there is a data segment, which has to be announced. -/
def hasData (module : Module) (segment : Nat) : Bool :=
  match module.announced with
  | none => false
  | some count => segment < count

/-- The type of the addresses that two places have in common. -/
def commonAddress (first second : ValueType) : ValueType :=
  if first = .i64 ∧ second = .i64 then .i64 else .i32

end Module

/-- What is known of a body before its instructions: the module, the types of the
locals, and the types of the results. -/
structure Surroundings where
  module : Module
  locals : Array ValueType
  results : List ValueType

namespace Typing

/-- The typing after a jump that depends on nothing, to where given types are
taken. -/
def away (table : TypeTable) (types : List ValueType) (typing : Typing) : Option Typing :=
  (typing.popAll table types).map (·.die)

/-- The typing after a call that returns at once what the function called returns. -/
def tailCall (around : Surroundings) (type : FunctionType) (typing : Typing) :
    Option Typing :=
  let table := around.module.types
  if table.allFit type.results around.results then typing.away table type.params else none

/-- The typing after a reference to a function of a declared type is taken, and
the type of the function. -/
def popFunction (table : TypeTable) (index : Nat) (typing : Typing) :
    Option (FunctionType × Typing) := do
  let type ← table.function? index
  let reference ← table.toDeclared? index
  return (type, ← typing.pop table (.reference reference.lenient))

/-- The typing after a place in a table of functions is taken, and the type of the
function there. -/
def popIndirect (module : Module) (index table : Nat) (typing : Typing) :
    Option (FunctionType × Typing) := do
  let (address, element) ← module.tablePlace? table
  let type ← module.types.function? index
  if module.types.fits element .functionReference then
    return (type, ← typing.pop module.types address)
  else none

/-- The label types of a jump that takes one more reference, and the type of that
reference. -/
def splitLabel? (label : Nat) (typing : Typing) :
    Option (List ValueType × ReferenceType) := do
  let types ← typing.labelTypes? label
  match types.getLast? with
  | some (.reference last) => some (types.dropLast, last)
  | _ => none

/-- The typing after a jump that depends on a cast. -/
def castJump (table : TypeTable) (onFailure : Bool) (label : Nat)
    (source target : ReferenceType) (typing : Typing) : Option Typing := do
  let source ← table.reference? source
  let target ← table.reference? target
  let (types, last) ← typing.splitLabel? label
  let failed : ReferenceType := { source with nullable := source.nullable && !target.nullable }
  let (jumping, going) := if onFailure then (failed, target) else (target, failed)
  if table.referenceFits target source && table.referenceFits jumping last then
    let typing ← typing.pop table (.reference source)
    return (← typing.exchange table types types).pushReference going
  else none

/-- The typing after a jump, or an instruction that ends the body or calls. -/
def control (around : Surroundings) (typing : Typing) : Instruction → Option Typing
  | .unreachable => some typing.die
  | .jump label => do
      typing.away around.module.types (← typing.labelTypes? label)
  | .jumpIf label => do
      let types ← typing.labelTypes? label
      let typing ← typing.pop around.module.types .i32
      typing.exchange around.module.types types types
  | .jumpTable labels last => do
      let typing ← typing.pop around.module.types .i32
      let lastTypes ← typing.labelTypes? last
      let fits := labels.all fun label =>
        match typing.labelTypes? label with
        | none => false
        | some types =>
            types.length = lastTypes.length && (typing.popAll around.module.types types).isSome
      if fits then typing.away around.module.types lastTypes else none
  | .jumpOnNull label => do
      let (type, typing) ← typing.popReference
      let types ← typing.labelTypes? label
      return (← typing.exchange around.module.types types types).pushReference type.strict
  | .jumpOnNonNull label => do
      let (types, last) ← typing.splitLabel? label
      let typing ← typing.pop around.module.types (.reference last.lenient)
      typing.exchange around.module.types types types
  | .jumpOnCast label source target =>
      typing.castJump around.module.types false label source target
  | .jumpOnCastFailure label source target =>
      typing.castJump around.module.types true label source target
  | .leave => typing.away around.module.types around.results
  | .raise tag => do
      let type ← around.module.tags[tag]?
      typing.away around.module.types type.params
  | .raiseReference =>
      typing.away around.module.types [.reference (.ofKind .exception)]
  | .call function => do
      let type ← around.module.functionType? function
      typing.exchange around.module.types type.params type.results
  | .callIndirect index table => do
      let (type, typing) ← typing.popIndirect around.module index table
      typing.exchange around.module.types type.params type.results
  | .callReference index => do
      let (type, typing) ← typing.popFunction around.module.types index
      typing.exchange around.module.types type.params type.results
  | .tailCall function => do
      typing.tailCall around (← around.module.functionType? function)
  | .tailCallIndirect index table => do
      let (type, typing) ← typing.popIndirect around.module index table
      typing.tailCall around type
  | .tailCallReference index => do
      let (type, typing) ← typing.popFunction around.module.types index
      typing.tailCall around type
  | _ => none

/-- The typing after an instruction on locals and globals, or on operands alone. -/
def onOperands (around : Surroundings) (typing : Typing) : Instruction → Option Typing
  | .drop => typing.popAny.map (·.2)
  | .select (some type) => do
      let type ← around.module.types.value? type
      typing.exchange around.module.types [type, type, .i32] [type]
  | .select none => do
      let typing ← typing.pop around.module.types .i32
      let (first, typing) ← typing.popAny
      let (second, typing) ← typing.popAny
      let plainType : Option ValueType → Bool := fun type =>
        !(type.map (·.isReference)).getD false
      if plainType first && plainType second &&
          (first = second || first.isNone || second.isNone) then
        return typing.push (first.or second)
      else none
  | .localGet index => do
      let type ← around.locals[index]?
      if typing.inner.unset.contains index then none else some (typing.push (some type))
  | .localSet index => do
      let type ← around.locals[index]?
      (typing.pop around.module.types type).map (·.setLocal index)
  | .localTee index => do
      let type ← around.locals[index]?
      (typing.exchange around.module.types [type] [type]).map (·.setLocal index)
  | .globalGet index => do
      let global ← around.module.globals[index]?
      return typing.push (some global.value)
  | .globalSet index => do
      let global ← around.module.globals[index]?
      if global.isMutable then typing.pop around.module.types global.value else none
  | .operation params results => typing.exchange around.module.types params results
  | _ => none

/-- The typing after an instruction on a table. -/
def onTable (module : Module) (typing : Typing) : Instruction → Option Typing
  | .tableGet index => do
      let (address, element) ← module.tablePlace? index
      typing.exchange module.types [address] [element]
  | .tableSet index => do
      let (address, element) ← module.tablePlace? index
      typing.exchange module.types [address, element] []
  | .tableSize index => do
      let (address, _) ← module.tablePlace? index
      return typing.push (some address)
  | .tableGrow index => do
      let (address, element) ← module.tablePlace? index
      typing.exchange module.types [element, address] [address]
  | .tableFill index => do
      let (address, element) ← module.tablePlace? index
      typing.exchange module.types [address, element, address] []
  | .tableCopy target source => do
      let (targetAddress, wanted) ← module.tablePlace? target
      let (sourceAddress, element) ← module.tablePlace? source
      if module.types.fits element wanted then
        typing.exchange module.types [targetAddress, sourceAddress,
          Module.commonAddress targetAddress sourceAddress] []
      else none
  | .tableInit segment table => do
      let (address, wanted) ← module.tablePlace? table
      let element ← module.elements[segment]?
      if module.types.fits (.reference element) wanted then
        typing.exchange module.types [address, .i32, .i32] []
      else none
  | .elementDrop segment => do
      let _ ← module.elements[segment]?
      return typing
  | _ => none

/-- The typing after an instruction on a memory. -/
def onMemory (module : Module) (typing : Typing) : Instruction → Option Typing
  | .access width aligned params results place => do
      let address ← module.accessType? width aligned place
      typing.exchange module.types (address :: params) results
  | .memorySize index => do
      return typing.push (some (← module.memoryAddress? index))
  | .memoryGrow index => do
      let address ← module.memoryAddress? index
      typing.exchange module.types [address] [address]
  | .memoryFill index => do
      let address ← module.memoryAddress? index
      typing.exchange module.types [address, .i32, address] []
  | .memoryCopy target source => do
      let targetAddress ← module.memoryAddress? target
      let sourceAddress ← module.memoryAddress? source
      typing.exchange module.types [targetAddress, sourceAddress,
        Module.commonAddress targetAddress sourceAddress] []
  | .memoryInit segment memory => do
      let address ← module.memoryAddress? memory
      if module.hasData segment then
        typing.exchange module.types [address, .i32, .i32] []
      else none
  | .dataDrop segment => if module.hasData segment then some typing else none
  | _ => none

/-- The typing after an instruction on references. -/
def onReference (module : Module) (typing : Typing) : Instruction → Option Typing
  | .refNull heap => do
      let type ← module.types.reference? ⟨true, heap⟩
      return typing.pushReference type
  | .refIsNull => do
      let (_, typing) ← typing.popReference
      return typing.push (some .i32)
  | .refFunction index => do
      let type ← module.types.toDeclared? (← module.functions[index]?)
      if module.named.contains index then return typing.pushReference type else none
  | .refAsNonNull => do
      let (type, typing) ← typing.popReference
      return typing.pushReference type.strict
  | .refTest type => do
      let type ← module.types.reference? type
      let top ← module.types.topKind? type.heap
      typing.exchange module.types [.reference (.ofKind top)] [.i32]
  | .refCast type => do
      let type ← module.types.reference? type
      let top ← module.types.topKind? type.heap
      typing.exchange module.types [.reference (.ofKind top)] [.reference type]
  | .refConvert source target => do
      let (type, typing) ← typing.popReference
      if module.types.referenceFits type (.ofKind source) then
        return typing.pushReference { type with heap := .kind target }
      else none
  | _ => none

/-- The typing after an instruction on structures. -/
def onStruct (module : Module) (typing : Typing) : Instruction → Option Typing
  | .structNew index => do
      let fields ← module.types.fields? index
      let type ← module.types.toDeclared? index
      (typing.popAll module.types (fields.map (·.storage.unpacked))).map (·.pushReference type)
  | .structNewDefault index => do
      let fields ← module.types.fields? index
      let type ← module.types.toDeclared? index
      if fields.all (·.storage.unpacked.isDefaultable) then return typing.pushReference type
      else none
  | .structGet index field packed => do
      let field ← (← module.types.fields? index)[field]?
      let type ← module.types.toDeclared? index
      if field.storage.isPacked = packed then
        typing.exchange module.types [.reference type.lenient] [field.storage.unpacked]
      else none
  | .structSet index field => do
      let field ← (← module.types.fields? index)[field]?
      let type ← module.types.toDeclared? index
      if field.isMutable then
        typing.exchange module.types [.reference type.lenient, field.storage.unpacked] []
      else none
  | _ => none

/-- The typing after an instruction that makes an array. -/
def newArray (module : Module) (typing : Typing) : Instruction → Option Typing
  | .arrayNew index => do
      let element ← module.types.element? index
      let type ← module.types.toDeclared? index
      typing.exchange module.types [element.storage.unpacked, .i32] [.reference type]
  | .arrayNewDefault index => do
      let element ← module.types.element? index
      let type ← module.types.toDeclared? index
      if element.storage.unpacked.isDefaultable then
        typing.exchange module.types [.i32] [.reference type]
      else none
  | .arrayNewFixed index count => do
      let element ← module.types.element? index
      let type ← module.types.toDeclared? index
      if count ≤ Instruction.maxFixedElements then
        typing.exchange module.types (List.replicate count element.storage.unpacked)
          [.reference type]
      else none
  | .arrayNewData index segment => do
      let element ← module.types.element? index
      let type ← module.types.toDeclared? index
      if element.storage.reference?.isNone && module.hasData segment then
        typing.exchange module.types [.i32, .i32] [.reference type]
      else none
  | .arrayNewElements index segment => do
      let wanted ← (← module.types.element? index).storage.reference?
      let type ← module.types.toDeclared? index
      if module.types.referenceFits (← module.elements[segment]?) wanted then
        typing.exchange module.types [.i32, .i32] [.reference type]
      else none
  | _ => none

/-- The typing after an instruction on an array. -/
def onArray (module : Module) (typing : Typing) : Instruction → Option Typing
  | .arrayGet index packed => do
      let element ← module.types.element? index
      let type ← module.types.toDeclared? index
      if element.storage.isPacked = packed then
        typing.exchange module.types [.reference type.lenient, .i32] [element.storage.unpacked]
      else none
  | .arraySet index => do
      let element ← module.types.element? index
      let type ← module.types.toDeclared? index
      if element.isMutable then
        typing.exchange module.types
          [.reference type.lenient, .i32, element.storage.unpacked] []
      else none
  | .arrayFill index => do
      let element ← module.types.element? index
      let type ← module.types.toDeclared? index
      if element.isMutable then
        typing.exchange module.types
          [.reference type.lenient, .i32, element.storage.unpacked, .i32] []
      else none
  | .arrayCopy target source => do
      let wanted ← module.types.element? target
      let element ← module.types.element? source
      let targetType ← module.types.toDeclared? target
      let sourceType ← module.types.toDeclared? source
      if wanted.isMutable && module.types.storageFits element.storage wanted.storage then
        typing.exchange module.types
          [.reference targetType.lenient, .i32, .reference sourceType.lenient, .i32, .i32] []
      else none
  | .arrayInitData index segment => do
      let element ← module.types.element? index
      let type ← module.types.toDeclared? index
      if element.isMutable && element.storage.reference?.isNone && module.hasData segment then
        typing.exchange module.types [.reference type.lenient, .i32, .i32, .i32] []
      else none
  | .arrayInitElements index segment => do
      let element ← module.types.element? index
      let wanted ← element.storage.reference?
      let type ← module.types.toDeclared? index
      if element.isMutable && module.types.referenceFits (← module.elements[segment]?) wanted then
        typing.exchange module.types [.reference type.lenient, .i32, .i32, .i32] []
      else none
  | _ => none

/-- The typing after an instruction that opens and closes no block. -/
def plain (around : Surroundings) (typing : Typing) (instruction : Instruction) :
    Option Typing :=
  (typing.control around instruction)
    |>.or (typing.onOperands around instruction)
    |>.or (typing.onTable around.module instruction)
    |>.or (typing.onMemory around.module instruction)
    |>.or (typing.onReference around.module instruction)
    |>.or (typing.onStruct around.module instruction)
    |>.or (typing.newArray around.module instruction)
    |>.or (typing.onArray around.module instruction)

/-- Whether what a handler passes on is taken at its label. -/
def admitsHandler (around : Surroundings) (typing : Typing) (handler : Handler) : Bool :=
  let tagged : Option (List ValueType) :=
    match handler.tag with
    | none => some []
    | some tag => around.module.tags[tag]?.map (·.params)
  match tagged, typing.labelTypes? handler.label with
  | some params, some types =>
      let exception : ReferenceType := ⟨false, .kind .exception⟩
      around.module.types.allFit
        (params ++ if handler.withReference then [.reference exception] else []) types
  | _, _ => false

/-- The typing after an instruction that opens a block, or nothing if it opens
none. -/
def opening (around : Surroundings) (typing : Typing) : Instruction → Option Typing
  | .block type => do
      let type ← around.module.blockType? type
      return (← typing.popAll around.module.types type.params).enter .block type
  | .loop type => do
      let type ← around.module.blockType? type
      return (← typing.popAll around.module.types type.params).enter .loop type
  | .conditional type => do
      let type ← around.module.blockType? type
      let typing ← typing.pop around.module.types .i32
      return (← typing.popAll around.module.types type.params).enter .conditional type
  | .guarded type handlers => do
      let type ← around.module.blockType? type
      let typing ← typing.popAll around.module.types type.params
      if handlers.all (typing.admitsHandler around) then return typing.enter .block type
      else none
  | _ => none

/-- The typing after a conditional block goes over to what is done otherwise. -/
def otherwise (around : Surroundings) (typing : Typing) : Option Typing := do
  let frame ← typing.finished around.module.types
  match frame.opener, typing.outer with
  | .conditional, before :: _ =>
      let next : Frame :=
        { opener := .block, params := frame.params, results := frame.results,
          unset := before.unset }
      return Typing.pushAll frame.params ⟨next, typing.outer⟩
  | _, _ => none

end Typing

/-- The typing after one instruction, or the end of the body. -/
inductive Progress where
  | going (typing : Typing)
  | done
  deriving DecidableEq, Repr

namespace Typing

/-- The typing after the innermost block is closed.  Where nothing is done
otherwise, what a conditional block takes has to be what it leaves. -/
def closing (around : Surroundings) (typing : Typing) : Option Progress := do
  let frame ← typing.finished around.module.types
  if frame.opener = .conditional && !around.module.types.allFit frame.params frame.results then
    none
  else
    match typing.outer with
    | [] => return .done
    | next :: rest => return .going (Typing.pushAll frame.results ⟨next, rest⟩)

/-- The typing after one instruction. -/
def step (around : Surroundings) (typing : Typing) : Instruction → Option Progress
  | .close => typing.closing around
  | .otherwise => (typing.otherwise around).map .going
  | other => ((typing.opening around other).or (typing.plain around other)).map .going

/-- Whether instructions type and the last of them, and no other, ends the
body. -/
def run (around : Surroundings) (typing : Typing) : List Instruction → Bool
  | [] => false
  | instruction :: rest =>
      match typing.step around instruction with
      | none => false
      | some .done => rest.isEmpty
      | some (.going next) => next.run around rest

end Typing

/-- Whether a sequence of instructions is a body that takes the parameters and
leaves the results of a function type. -/
def wellTyped (module : Module) (type : FunctionType) (locals : List ValueType)
    (instructions : List Instruction) : Bool :=
  let unset := locals.zipIdx.filterMap fun entry =>
    if entry.1.isDefaultable then none else some (type.params.length + entry.2)
  let frame : Frame := { opener := .block, params := [], results := type.results, unset }
  Typing.run ⟨module, (type.params ++ locals).toArray, type.results⟩ ⟨frame, []⟩ instructions

end Wasm
end ContractAdmission
