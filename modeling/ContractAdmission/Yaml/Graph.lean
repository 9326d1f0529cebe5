import ContractAdmission.Yaml.Node

/-!
# Graphs of nodes

The nodes of a document under numbers.  An alias is the number of the node that
it stands for, so that a node can be shared and can even be a part of itself.
While a document is given its meaning, its nodes change: a mapping takes over the
pairs that are merged into it, and a key becomes text.  Whatever shares such a node
shares the change.

* `Graph.ofNode` numbers the nodes of a document.
* `Graph.absorb` merges into a mapping what its keys for merging name.
-/

namespace ContractAdmission
namespace Yaml

/-- What a node consists of. -/
inductive Content where
  | scalar (text : CodeText)
  | sequence (items : List Nat)
  | mapping (pairs : List (Nat × Nat))
  deriving DecidableEq, Repr

/-- A node under a number. -/
structure Vertex where
  tag : Tag
  content : Content
  deriving DecidableEq, Repr

/-- The nodes of a document, each under its place. -/
structure Graph where
  nodes : Array Vertex := #[]

namespace Graph

/-- The node of a number. -/
def get (graph : Graph) (id : Nat) : Vertex :=
  graph.nodes[id]?.getD ⟨.unknown, .scalar (.whole "")⟩

/-- Change the node of a number. -/
def modify (graph : Graph) (id : Nat) (change : Vertex → Vertex) : Graph :=
  ⟨graph.nodes.modify id change⟩

/-- The tag of a node. -/
def tag (graph : Graph) (id : Nat) : Tag := (graph.get id).tag

/-- The pairs of a mapping.  Other nodes have none. -/
def pairs (graph : Graph) (id : Nat) : List (Nat × Nat) :=
  match (graph.get id).content with
  | .mapping pairs => pairs
  | _ => []

/-- Give a mapping other pairs. -/
def setPairs (graph : Graph) (id : Nat) (pairs : List (Nat × Nat)) : Graph :=
  graph.modify id fun vertex => { vertex with content := .mapping pairs }

/-- Make text of a key that is the default key. -/
def plainKey (graph : Graph) (id : Nat) : Graph :=
  graph.modify id fun vertex =>
    if vertex.tag = .default then { vertex with tag := .str } else vertex

/-- Whether a node is a mapping. -/
def isMapping (graph : Graph) (id : Nat) : Bool :=
  match (graph.get id).content with
  | .mapping _ => true
  | _ => false

/-- Changing a node keeps the number of nodes. -/
@[simp] theorem size_modify (graph : Graph) (id : Nat) (change : Vertex → Vertex) :
    (graph.modify id change).nodes.size = graph.nodes.size := by
  simp [modify]

/-- Changing a node keeps the others. -/
theorem get_modify_of_ne {graph : Graph} {id other : Nat} (change : Vertex → Vertex)
    (h : other ≠ id) : (graph.modify id change).get other = graph.get other := by
  simp [modify, get, Array.getElem?_modify, Ne.symm h]

end Graph

/-- What is known while nodes are numbered: the nodes so far, and the numbers of
those with an anchor. -/
structure Numbering where
  graph : Graph := {}
  anchors : List (String × Nat) := []

namespace Numbering

/-- A node under the next number. -/
def add (anchor : Option String) (vertex : Vertex) : StateM Numbering Nat := fun state =>
  let id := state.graph.nodes.size
  (id, { graph := ⟨state.graph.nodes.push vertex⟩
         anchors := (anchor.map fun name => (name, id)).toList ++ state.anchors })

/-- Complete a node. -/
def complete (id : Nat) (content : Content) : StateM Numbering Unit := fun state =>
  ((), { state with
    graph := state.graph.modify id fun vertex => { vertex with content := content } })

end Numbering

namespace Node

mutual

/-- The number of a node, after it and the nodes in it have theirs.  A node has a
smaller number than the nodes in it. -/
def place : Node → StateM Numbering Nat
  | .scalar anchor tag text => Numbering.add anchor ⟨tag, .scalar text⟩
  | .sequence anchor tag items => do
      let id ← Numbering.add anchor ⟨tag, .sequence []⟩
      Numbering.complete id (.sequence (← placeItems items))
      return id
  | .mapping anchor tag pairs => do
      let id ← Numbering.add anchor ⟨tag, .mapping []⟩
      Numbering.complete id (.mapping (← placePairs pairs))
      return id
  | .alias name => fun state => ((state.anchors.lookup name).getD state.graph.nodes.size, state)

/-- The numbers of the nodes in a list. -/
def placeItems : List Node → StateM Numbering (List Nat)
  | [] => return []
  | item :: rest => do
      let id ← place item
      return id :: (← placeItems rest)

/-- The numbers of the nodes in a list of pairs. -/
def placePairs : List (Node × Node) → StateM Numbering (List (Nat × Nat))
  | [] => return []
  | (key, value) :: rest => do
      let keyId ← place key
      let valueId ← place value
      return (keyId, valueId) :: (← placePairs rest)

end

end Node

namespace Graph

/-- The number of the root of a document. -/
def root : Nat := 0

/-- The graph of a document. -/
def ofNode (node : Node) : Graph :=
  ((node.place {}).2).graph

/-- The number of pairs in a graph. -/
def pairCount (graph : Graph) : Nat :=
  graph.nodes.foldl (fun count vertex =>
    match vertex.content with
    | .mapping pairs => count + pairs.length
    | _ => count) 0

/-- The value of the first pair with a key for merging, and the other pairs. -/
def splitMerge (graph : Graph) : List (Nat × Nat) → Option (Nat × List (Nat × Nat))
  | [] => none
  | pair :: rest =>
      if graph.tag pair.1 = .merge then some (pair.2, rest)
      else (splitMerge graph rest).map fun found => (found.1, pair :: found.2)

/-- Take over into a mapping the pairs that its keys for merging name, behind those
that were taken over already, and make text of its default keys.  Each step takes
one pair away from a mapping, also where the mapping is its own part, so the number
of pairs bounds the steps. -/
def absorbFrom : Nat → Nat → List (Nat × Nat) → Graph → Except Fault Graph
  | 0, _, _, _ => .error .tooDeep
  | bound + 1, id, merged, graph =>
      match graph.splitMerge (graph.pairs id) with
      | none =>
          let all := merged ++ graph.pairs id
          .ok (all.foldl (fun graph pair => graph.plainKey pair.1) (graph.setPairs id all))
      | some (value, rest) => do
          let graph := graph.setPairs id rest
          match (graph.get value).content with
          | .mapping _ =>
              let graph ← absorbFrom bound value [] graph
              absorbFrom bound id (merged ++ graph.pairs value) graph
          | .sequence items =>
              let (graph, found) ← items.foldlM (fun (graph, found) item =>
                if graph.isMapping item then do
                  let graph ← absorbFrom bound item [] graph
                  return (graph, graph.pairs item ++ found)
                else throw .construction) (graph, [])
              absorbFrom bound id (merged ++ found) graph
          | .scalar _ => throw .construction

/-- Take over into a mapping the pairs that its keys for merging name. -/
def absorb (graph : Graph) (id : Nat) : Except Fault Graph :=
  absorbFrom (graph.pairCount + 1) id [] graph

/-- The text of a node that has to be a scalar.  A mapping can stand for the value
of its default key; a chain of more nodes than there are has no end. -/
def scalarTextFrom (graph : Graph) : Nat → Nat → Except Fault CodeText
  | 0, _ => .error .tooDeep
  | bound + 1, id =>
      match (graph.get id).content with
      | .scalar text => .ok text
      | .mapping pairs =>
          match pairs.find? fun pair => graph.tag pair.1 = .default with
          | some pair => scalarTextFrom graph bound pair.2
          | none => .error .construction
      | .sequence _ => .error .construction

/-- The text of a node that has to be a scalar. -/
def scalarText (graph : Graph) (id : Nat) : Except Fault CodeText :=
  scalarTextFrom graph (graph.nodes.size + 1) id

end Graph
end Yaml
end ContractAdmission
