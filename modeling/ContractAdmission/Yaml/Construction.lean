import ContractAdmission.Yaml.Graph
import ContractAdmission.Yaml.ScalarValue

/-!
# What a document stands for

The nodes of a document are given their values level by level: the root first,
then the members of the collections in the order in which they were met.  A node
that is met again, through an alias, has its value already.  The first node that
cannot have the value that its tag asks for is the fault of the document.

A collection has its value before its members have theirs, and is filled later.
Before a mapping is filled it takes over what is merged into it, and that can
change nodes that are still to be met.

* `Construction.ofNode` gives all nodes of a document their values.
-/

namespace ContractAdmission
namespace Yaml

/-- The value of a node, in which other nodes go by their numbers. -/
inductive Value where
  | scalar (value : ScalarValue)
  | list (items : List Nat)
  | mapping (pairs : List (Nat × Nat))
  | set (pairs : List (Nat × Nat))
  /-- A list of a number of pairs. -/
  | pairList (count : Nat)
  deriving DecidableEq, Repr

namespace Value

/-- Whether a value has members. -/
def isCollection : Value → Bool
  | .scalar _ => false
  | .list _ | .mapping _ | .set _ | .pairList _ => true

end Value

/-- The value of a collection before it is filled. -/
def Tag.emptyValue? : Tag → Option Value
  | .seq => some (.list [])
  | .map => some (.mapping [])
  | .set => some (.set [])
  | .omap | .pairs => some (.pairList 0)
  | _ => none

/-- What is known while nodes are given their values. -/
structure Construction where
  graph : Graph
  values : Array (Option Value)
  /-- The collections that are still to be filled, the one met last first. -/
  waiting : List Nat := []

namespace Construction

/-- The value of a node, if it has one already. -/
def value? (state : Construction) (id : Nat) : Option Value :=
  state.values[id]?.join

/-- Give a node a value. -/
def setValue (state : Construction) (id : Nat) (value : Value) : Construction :=
  { state with values := state.values.modify id fun _ => some value }

/-- The value of a node that is no collection.  A date has to be written as text. -/
def scalarValue (graph : Graph) (id : Nat) : Except Fault Value := do
  let tag := graph.tag id
  if tag = .unknown ∨ tag = .merge ∨ tag = .default then throw .construction
  let text ← graph.scalarText id
  if tag = .timestamp ∧ graph.isMapping id then throw .notDatable
  return .scalar (← ScalarValue.ofTagged id tag text)

/-- Meet a node.  A scalar has its value at once; a collection waits to be filled. -/
def meet (state : Construction) (id : Nat) : Except Fault Construction :=
  match state.value? id with
  | some _ => .ok state
  | none =>
      match (state.graph.tag id).emptyValue? with
      | some value => .ok { state.setValue id value with waiting := id :: state.waiting }
      | none => (scalarValue state.graph id).map (state.setValue id)

/-- Whether the value of a node is a collection. -/
def isCollection (state : Construction) (id : Nat) : Bool :=
  ((state.value? id).map (·.isCollection)).getD false

/-- Meet nodes, one after the other. -/
def meetItems (state : Construction) (items : List Nat) : Except Fault Construction :=
  items.foldlM meet state

/-- Meet the pairs of a mapping.  A key cannot be a collection. -/
def meetPairs (state : Construction) (pairs : List (Nat × Nat)) : Except Fault Construction :=
  pairs.foldlM (fun state pair => do
    let state ← state.meet pair.1
    if state.isCollection pair.1 then throw .construction
    state.meet pair.2) state

/-- Meet the items of a list of mappings of one pair. -/
def meetSingles (state : Construction) (items : List Nat) : Except Fault Construction :=
  items.foldlM (fun state item =>
    match (state.graph.get item).content with
    | .mapping [(key, value)] => do
        let state ← state.meet key
        state.meet value
    | _ => throw .construction) state

/-- Meet the pairs of a mapping, and of what is merged into it, and give it a value
that is made from them. -/
def fillMapping (state : Construction) (id : Nat) (value : List (Nat × Nat) → Value) :
    Except Fault Construction := do
  if state.graph.isMapping id then
    let graph ← state.graph.absorb id
    let pairs := graph.pairs id
    return (← { state with graph := graph }.meetPairs pairs).setValue id (value pairs)
  else throw .construction

/-- Meet the members of a collection, and complete its value. -/
def fill (state : Construction) (id : Nat) : Except Fault Construction :=
  match state.value? id, (state.graph.get id).content with
  | some (.list _), .sequence items => do
      return (← state.meetItems items).setValue id (.list items)
  | some (.mapping _), _ => state.fillMapping id .mapping
  | some (.set _), _ => state.fillMapping id .set
  | some (.pairList _), .sequence items => do
      return (← state.meetSingles items).setValue id (.pairList items.length)
  | _, _ => throw .construction

/-- Fill the collections that wait, and then those that are met meanwhile.  Every
round fills one collection at least. -/
def drain : Nat → Construction → Except Fault Construction
  | 0, state => .ok state
  | rounds + 1, state =>
      if state.waiting.isEmpty then .ok state
      else do
        let next ← state.waiting.reverse.foldlM fill { state with waiting := [] }
        drain rounds next

/-- Give every node of a document its value. -/
def ofNode (root : Node) : Except Fault Construction := do
  let graph := Graph.ofNode root
  let state : Construction := ⟨graph, Array.replicate graph.nodes.size none, []⟩
  drain graph.nodes.size (← state.meet Graph.root)

end Construction
end Yaml
end ContractAdmission
