import ContractAdmission.Proofs.Yaml.FlowNodes
import ContractAdmission.Proofs.Yaml.PlainValues

/-!
# The graph of JSON text

The nodes of JSON text under numbers.  No node of it is shared, and a node is completed only after
the nodes in it have their numbers; so what a graph holds of a value is said with a bound from
below on the numbers.

* `Graph.Holds` — a graph has the nodes of a value, none of them under a number below a bound.
* `Graph.Extends` — what numbering further nodes keeps.
* `Graph.holds_ofNode` — the graph of the node of a value holds the value at its root.
-/

namespace ContractAdmission
namespace Yaml
namespace Graph

mutual

/-- A graph has the nodes of a value, its own under a number and none under a smaller one than
a bound. -/
def Holds (graph : Graph) (bound : Nat) : Json → Nat → Prop
  | .null, _ | .bool _, _ => False
  | .string value, id => bound ≤ id ∧ graph.Has id ⟨.str, .scalar (.whole value)⟩
  | .array items, id =>
      bound ≤ id ∧ ∃ ids, graph.Has id ⟨.seq, .sequence ids⟩ ∧ HoldsItems graph bound items ids
  | .object members, id =>
      bound ≤ id ∧ ∃ pairs, graph.Has id ⟨.map, .mapping pairs⟩ ∧
        HoldsMembers graph bound members pairs

/-- The same for items, each under the number at its place. -/
def HoldsItems (graph : Graph) (bound : Nat) : List Json → List Nat → Prop
  | [], ids => ids = []
  | item :: items, ids =>
      ∃ id later, ids = id :: later ∧ Holds graph bound item id ∧
        HoldsItems graph bound items later

/-- The same for members, each under the pair of numbers at its place. -/
def HoldsMembers (graph : Graph) (bound : Nat) : List (String × Json) → List (Nat × Nat) → Prop
  | [], pairs => pairs = []
  | (key, value) :: members, pairs =>
      ∃ keyId valueId later, pairs = (keyId, valueId) :: later ∧
        (bound ≤ keyId ∧ graph.Has keyId ⟨.str, .scalar (.whole key)⟩) ∧
          Holds graph bound value valueId ∧
          HoldsMembers graph bound members later

end

/-- A graph has the nodes that another has from a bound on, and perhaps more. -/
structure Extends (bound : Nat) (graph larger : Graph) : Prop where
  size : graph.nodes.size ≤ larger.nodes.size
  keeps : ∀ id vertex, bound ≤ id → graph.Has id vertex → larger.Has id vertex

namespace Extends

variable {bound : Nat} {graph larger largest : Graph}

theorem refl (bound : Nat) (graph : Graph) : Extends bound graph graph :=
  ⟨Nat.le_refl _, fun _ _ _ h => h⟩

theorem trans (h : Extends bound graph larger) (h' : Extends bound larger largest) :
    Extends bound graph largest :=
  ⟨Nat.le_trans h.size h'.size,
    fun id vertex hid hhas => h'.keeps id vertex hid (h.keeps id vertex hid hhas)⟩

theorem weaken {other : Nat} (h : Extends bound graph larger) (hle : bound ≤ other) :
    Extends other graph larger :=
  ⟨h.size, fun id vertex hid => h.keeps id vertex (Nat.le_trans hle hid)⟩

/-- A further node changes none. -/
theorem push (graph : Graph) (vertex : Vertex) :
    Extends 0 graph ⟨graph.nodes.push vertex⟩ := by
  refine ⟨by simp, fun id found _ hhas => ⟨?_, ?_⟩⟩
  · have := hhas.1
    rw [Array.size_push]
    omega
  · rw [← hhas.2, get, get, Array.getElem?_push_lt hhas.1, Array.getElem?_eq_getElem hhas.1]

/-- Changing a node keeps those with greater numbers. -/
theorem modify (graph : Graph) (id : Nat) (change : Vertex → Vertex) :
    Extends (id + 1) graph (graph.modify id change) := by
  refine ⟨by simp, fun other vertex hother hhas => ⟨by simpa using hhas.1, ?_⟩⟩
  rw [get_modify_of_ne change (by omega)]
  exact hhas.2

end Extends

mutual

theorem Holds.extend : ∀ {value : Json} {graph larger : Graph} {bound lower id : Nat},
    graph.Holds bound value id → Extends bound graph larger → lower ≤ bound →
      larger.Holds lower value id
  | .string _, _, _, _, _, _, h, hextends, hle =>
      ⟨Nat.le_trans hle h.1, hextends.keeps _ _ h.1 h.2⟩
  | .array _, _, _, _, _, _, h, hextends, hle => by
      obtain ⟨hbound, ids, hhas, hitems⟩ := h
      exact ⟨Nat.le_trans hle hbound, ids, hextends.keeps _ _ hbound hhas,
        HoldsItems.extend hitems hextends hle⟩
  | .object _, _, _, _, _, _, h, hextends, hle => by
      obtain ⟨hbound, pairs, hhas, hmembers⟩ := h
      exact ⟨Nat.le_trans hle hbound, pairs, hextends.keeps _ _ hbound hhas,
        HoldsMembers.extend hmembers hextends hle⟩

theorem HoldsItems.extend : ∀ {items : List Json} {graph larger : Graph} {bound lower : Nat}
    {ids : List Nat}, graph.HoldsItems bound items ids → Extends bound graph larger →
      lower ≤ bound → larger.HoldsItems lower items ids
  | [], _, _, _, _, _, h, _, _ => h
  | _ :: _, _, _, _, _, _, h, hextends, hle => by
      obtain ⟨id, later, rfl, hitem, hitems⟩ := h
      exact ⟨id, later, rfl, Holds.extend hitem hextends hle,
        HoldsItems.extend hitems hextends hle⟩

theorem HoldsMembers.extend : ∀ {members : List (String × Json)} {graph larger : Graph}
    {bound lower : Nat} {pairs : List (Nat × Nat)}, graph.HoldsMembers bound members pairs →
      Extends bound graph larger → lower ≤ bound → larger.HoldsMembers lower members pairs
  | [], _, _, _, _, _, h, _, _ => h
  | (_, _) :: _, _, _, _, _, _, h, hextends, hle => by
      obtain ⟨keyId, valueId, later, rfl, ⟨hbound, hkey⟩, hvalue, hmembers⟩ := h
      exact ⟨keyId, valueId, later, rfl,
        ⟨Nat.le_trans hle hbound, hextends.keeps _ _ hbound hkey⟩,
        Holds.extend hvalue hextends hle, HoldsMembers.extend hmembers hextends hle⟩

end

/-! ### Numbering -/

/-- What is kept and what is held after something was numbered. -/
structure Placed (before after : Numbering) (holds : Graph → Nat → Prop) : Prop where
  extended : Extends 0 before.graph after.graph
  holds : holds after.graph before.graph.nodes.size

/-- The node that was added last is the one with the greatest number. -/
theorem has_push (graph : Graph) (vertex : Vertex) :
    Has ⟨graph.nodes.push vertex⟩ graph.nodes.size vertex := by
  refine ⟨?_, ?_⟩
  · show graph.nodes.size < (graph.nodes.push vertex).size
    rw [Array.size_push]
    exact Nat.lt_succ_self _
  · show (graph.nodes.push vertex)[graph.nodes.size]?.getD _ = vertex
    rw [Array.getElem?_push_size]
    rfl

theorem has_modify {graph : Graph} {id : Nat} {vertex : Vertex} (h : graph.Has id vertex)
    (change : Vertex → Vertex) : (graph.modify id change).Has id (change vertex) := by
  refine ⟨by simpa using h.1, ?_⟩
  rw [← h.2]
  simp [get, Graph.modify, Array.getElem?_modify, Array.getElem?_eq_getElem h.1]

theorem place_text (text : CodeText) (before : Numbering) :
    Placed before ((Node.scalar none .str text).place before).2 fun graph bound =>
      bound ≤ ((Node.scalar none .str text).place before).1 ∧
        graph.Has ((Node.scalar none .str text).place before).1 ⟨.str, .scalar text⟩ :=
  ⟨Extends.push before.graph _, Nat.le_refl _, has_push before.graph _⟩

/-- A collection has its number before its members have theirs, and is completed after them. -/
theorem placed_collection {before placed : Numbering} {tag : Tag} {content : Content}
    {holds : Graph → Nat → Prop} (complete : Content)
    (hplaced : Placed (Numbering.add none ⟨tag, content⟩ before).2 placed holds)
    (hextend : ∀ {graph larger : Graph} {bound lower : Nat}, holds graph bound →
      Extends bound graph larger → lower ≤ bound → holds larger lower) :
    Placed before (Numbering.complete before.graph.nodes.size complete placed).2
      fun graph bound => graph.Has before.graph.nodes.size ⟨tag, complete⟩ ∧ holds graph bound := by
  have hadded : Extends 0 before.graph ⟨before.graph.nodes.push ⟨tag, content⟩⟩ :=
    Extends.push before.graph _
  have hsize : (Numbering.add none ⟨tag, content⟩ before).2.graph.nodes.size =
      before.graph.nodes.size + 1 := Array.size_push _
  have hmodify : Extends (before.graph.nodes.size + 1) placed.graph
      (Numbering.complete before.graph.nodes.size complete placed).2.graph :=
    Extends.modify placed.graph _ _
  refine ⟨⟨?_, fun id vertex _ hhas => ?_⟩, ?_, ?_⟩
  · exact Nat.le_trans (hadded.trans hplaced.extended).size hmodify.size
  · -- A node from before has a smaller number than the collection.
    have hkept := (hadded.trans hplaced.extended).keeps id vertex (Nat.zero_le _) hhas
    refine ⟨Nat.lt_of_lt_of_le hkept.1 hmodify.size, ?_⟩
    rw [← hkept.2]
    exact get_modify_of_ne _ (Nat.ne_of_lt hhas.1)
  · have hown := hplaced.extended.keeps _ _ (Nat.zero_le _) (has_push before.graph ⟨tag, content⟩)
    exact has_modify hown _
  · exact hextend hplaced.holds (hsize ▸ hmodify) (by omega)

mutual

theorem place_holds : ∀ {value : Json}, value.Quoted → ∀ before : Numbering,
    Placed before (value.node.place before).2 fun graph bound =>
      graph.Holds bound value (value.node.place before).1
  | .string value, _, before => place_text (.whole value) before
  | .array items, h, before => by
      have hitems := placeItems_holds h (Numbering.add none ⟨.seq, .sequence []⟩ before).2
      have hplaced := placed_collection (.sequence (Node.placeItems (Json.itemNodes items)
        (Numbering.add none ⟨.seq, .sequence []⟩ before).2).1) hitems
        fun hitems hextends hle => hitems.extend hextends hle
      exact ⟨hplaced.extended, Nat.le_refl _, _, hplaced.holds.1, hplaced.holds.2⟩
  | .object members, h, before => by
      have hmembers := placePairs_holds h (Numbering.add none ⟨.map, .mapping []⟩ before).2
      have hplaced := placed_collection (.mapping (Node.placePairs (Json.memberNodes members)
        (Numbering.add none ⟨.map, .mapping []⟩ before).2).1) hmembers
        fun hmembers hextends hle => hmembers.extend hextends hle
      exact ⟨hplaced.extended, Nat.le_refl _, _, hplaced.holds.1, hplaced.holds.2⟩

theorem placeItems_holds : ∀ {items : List Json}, Json.QuotedItems items →
    ∀ before : Numbering, Placed before (Node.placeItems (Json.itemNodes items) before).2
      fun graph bound =>
        graph.HoldsItems bound items (Node.placeItems (Json.itemNodes items) before).1
  | [], _, before => ⟨Extends.refl 0 _, rfl⟩
  | item :: items, h, before => by
      have hitem := place_holds h.1 before
      have hitems := placeItems_holds h.2 (item.node.place before).2
      refine ⟨hitem.extended.trans hitems.extended, _, _, rfl, ?_, ?_⟩
      · exact hitem.holds.extend (hitems.extended.weaken (Nat.zero_le _)) (Nat.le_refl _)
      · exact hitems.holds.extend (Extends.refl _ _) hitem.extended.size

theorem placePairs_holds : ∀ {members : List (String × Json)}, Json.QuotedMembers members →
    ∀ before : Numbering, Placed before (Node.placePairs (Json.memberNodes members) before).2
      fun graph bound =>
        graph.HoldsMembers bound members (Node.placePairs (Json.memberNodes members) before).1
  | [], _, before => ⟨Extends.refl 0 _, rfl⟩
  | (key, value) :: members, h, before => by
      have hkey := place_text (.whole key) before
      have hvalue := place_holds h.2.1 ((Node.scalar none .str (.whole key)).place before).2
      have hmembers := placePairs_holds h.2.2
        (value.node.place ((Node.scalar none .str (.whole key)).place before).2).2
      have hlater := hvalue.extended.trans hmembers.extended
      refine ⟨hkey.extended.trans hlater, _, _, _, rfl, ⟨hkey.holds.1, ?_⟩, ?_, ?_⟩
      · exact hlater.keeps _ _ (Nat.zero_le _) hkey.holds.2
      · exact hvalue.holds.extend (hmembers.extended.weaken (Nat.zero_le _)) hkey.extended.size
      · exact hmembers.holds.extend (Extends.refl _ _)
          (hkey.extended.trans hvalue.extended).size

end

/-- The graph of the node of a value holds the value at its root. -/
theorem holds_ofNode {value : Json} (h : value.Quoted) :
    (ofNode value.node).Holds 0 value root := by
  have hholds := (place_holds h {}).holds
  have hroot : (value.node.place {}).1 = root := by
    cases value <;> rfl
  rw [hroot] at hholds
  exact hholds

end Graph
end Yaml
end ContractAdmission
