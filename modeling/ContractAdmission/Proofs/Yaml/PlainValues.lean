import ContractAdmission.Yaml.Construction
import Mathlib.Data.Finset.Card

/-!
# The values of plain nodes

A node is plain if it is text, a list, or a mapping whose keys are text, and so are the nodes in
it.  Plain nodes always have values: nothing is merged into them and no text of theirs can be
misread.  The nodes are met level by level; in each round the collections are filled that were
met in the one before, and every node is met once at most, so that the rounds come to an end
before their bound does.

* `Graph.Plain` — a plain node.
* `Construction.Sound` — what holds between two steps: whatever has a value has the one that it
  should, or waits to be filled.
* `Construction.meet_sound`, `Construction.fill_sound`, `Construction.drain_sound` — one node,
  one collection and all rounds.
* `Construction.ofNode_sound` — in the end nothing waits.
-/

namespace ContractAdmission
namespace Yaml

namespace Graph

/-- A graph has a node under a number. -/
def Has (graph : Graph) (id : Nat) (vertex : Vertex) : Prop :=
  id < graph.nodes.size ∧ graph.get id = vertex

/-- A node that is text, or a collection of plain nodes without merging. -/
inductive Plain (graph : Graph) : Nat → Prop
  | text {id : Nat} {text : CodeText} (h : graph.Has id ⟨.str, .scalar text⟩) : Plain graph id
  | list {id : Nat} {items : List Nat} (h : graph.Has id ⟨.seq, .sequence items⟩)
      (hitems : ∀ item ∈ items, Plain graph item) : Plain graph id
  | mapping {id : Nat} {pairs : List (Nat × Nat)} (h : graph.Has id ⟨.map, .mapping pairs⟩)
      (hkeys : ∀ pair ∈ pairs, ∃ text, graph.Has pair.1 ⟨.str, .scalar text⟩)
      (hvalues : ∀ pair ∈ pairs, Plain graph pair.2) : Plain graph id

variable {graph : Graph} {id : Nat}

theorem Plain.lt_size (h : graph.Plain id) : id < graph.nodes.size := by
  cases h with
  | text h => exact h.1
  | list h _ => exact h.1
  | mapping h _ _ => exact h.1

/-- A change that leaves the node as it is changes nothing. -/
theorem modify_eq_self {change : Vertex → Vertex} (h : change (graph.get id) = graph.get id) :
    graph.modify id change = graph := by
  have hnodes : graph.nodes.modify id change = graph.nodes := by
    refine Array.ext_getElem? fun other => ?_
    rw [Array.getElem?_modify]
    split_ifs with hother
    · subst hother
      cases hnode : graph.nodes[id]? with
      | none => rfl
      | some vertex =>
          have hget : graph.get id = vertex := by rw [get, hnode, Option.getD_some]
          rw [Option.map_some, ← hget, h]
    · rfl
  rw [modify, hnodes]

/-- Nothing is merged into a mapping whose keys are text. -/
theorem absorb_eq_self {pairs : List (Nat × Nat)} (h : graph.Has id ⟨.map, .mapping pairs⟩)
    (hkeys : ∀ pair ∈ pairs, ∃ text, graph.Has pair.1 ⟨.str, .scalar text⟩) :
    graph.absorb id = .ok graph := by
  have hpairs : graph.pairs id = pairs := by rw [Graph.pairs, h.2]
  have htag : ∀ pair ∈ pairs, graph.tag pair.1 = .str := by
    intro pair hpair
    obtain ⟨text, hkey⟩ := hkeys pair hpair
    rw [tag, hkey.2]
  have hmerge : graph.splitMerge pairs = none := by
    clear hpairs h hkeys
    induction pairs with
    | nil => rfl
    | cons pair rest ih =>
        obtain ⟨hpair, hrest⟩ := List.forall_mem_cons.1 htag
        rw [splitMerge, hpair, if_neg (by decide), ih hrest]
        rfl
  have hset : graph.setPairs id pairs = graph := modify_eq_self (by rw [h.2])
  have hplain : pairs.foldl (fun graph pair => graph.plainKey pair.1) graph = graph := by
    refine List.foldlRecOn (motive := fun found => found = graph) pairs _ rfl
      fun found hfound pair hpair => ?_
    have hstr : (graph.get pair.1).tag = .str := htag pair hpair
    rw [hfound]
    exact modify_eq_self (if_neg (by rw [hstr]; decide))
  rw [absorb, absorbFrom, hpairs, hmerge]
  simp only [List.nil_append, hset, hplain]

end Graph

namespace Construction

/-- A node has a value. -/
def Met (state : Construction) (id : Nat) : Prop := ∃ value, state.value? id = some value

/-- A value that a node can have while nodes are given their values. -/
def Suits (vertex : Vertex) (value : Value) : Prop :=
  match vertex.content with
  | .scalar text => value = .scalar (.text text)
  | .sequence _ => ∃ items, value = .list items
  | .mapping _ => ∃ pairs, value = .mapping pairs

/-- A node has the value that it has in the end, and the nodes in it are met. -/
def Settled (state : Construction) (id : Nat) : Prop :=
  match (state.graph.get id).content with
  | .scalar text => state.value? id = some (.scalar (.text text))
  | .sequence items => state.value? id = some (.list items) ∧ ∀ item ∈ items, state.Met item
  | .mapping pairs => state.value? id = some (.mapping pairs) ∧
      ∀ pair ∈ pairs, state.Met pair.1 ∧ state.Met pair.2

/-- The numbers of the nodes without a value. -/
def unmet (state : Construction) : Finset Nat :=
  (Finset.range state.values.size).filter fun id => state.value? id = none

/-- The number of collections that are still to be filled or met. -/
def budget (state : Construction) : Nat := state.waiting.length + state.unmet.card

/-- What holds between two steps, where some collections of this round are still to be filled. -/
structure Sound (graph : Graph) (todo : List Nat) (state : Construction) : Prop where
  same : state.graph = graph
  size : state.values.size = graph.nodes.size
  suits : ∀ id value, state.value? id = some value →
    graph.Plain id ∧ Suits (graph.get id) value
  waits : ∀ id ∈ todo ++ state.waiting, ∃ value, state.value? id = some value ∧
    value.isCollection = true
  settled : ∀ id, state.Met id → id ∈ todo ++ state.waiting ∨ state.Settled id

/-- What a step onward keeps: nodes that are met, and a bound on what is left to do. -/
structure Onward (before after : Construction) : Prop where
  met : ∀ id, before.Met id → after.Met id
  budget : after.budget ≤ before.budget

theorem Onward.trans {first second third : Construction} (h : Onward first second)
    (h' : Onward second third) : Onward first third :=
  ⟨fun id hid => h'.met id (h.met id hid), Nat.le_trans h'.budget h.budget⟩

/-- What meeting a node keeps: all values. -/
structure Keeps (before after : Construction) : Prop extends Onward before after where
  values : ∀ id value, before.value? id = some value → after.value? id = some value

namespace Keeps

variable {first second third : Construction}

theorem refl (state : Construction) : Keeps state state :=
  ⟨⟨fun _ h => h, Nat.le_refl _⟩, fun _ _ h => h⟩

theorem trans (h : Keeps first second) (h' : Keeps second third) : Keeps first third :=
  ⟨h.toOnward.trans h'.toOnward,
    fun id value hid => h'.values id value (h.values id value hid)⟩

end Keeps

section Values

variable {state : Construction} {id other : Nat} {value : Value}

theorem value?_setValue_self (h : id < state.values.size) :
    (state.setValue id value).value? id = some value := by
  simp [setValue, value?, Array.getElem?_modify, Array.getElem?_eq_getElem h]

theorem value?_setValue_of_ne (h : other ≠ id) :
    (state.setValue id value).value? other = state.value? other := by
  simp [setValue, value?, Array.getElem?_modify, Ne.symm h]

theorem met_setValue (h : state.Met other) : (state.setValue id value).Met other := by
  obtain ⟨found, hfound⟩ := h
  by_cases heq : other = id
  · subst heq
    have hsize : other < state.values.size := by
      by_contra hnot
      simp [value?, Array.getElem?_eq_none (Nat.le_of_not_lt hnot)] at hfound
    exact ⟨value, value?_setValue_self hsize⟩
  · exact ⟨found, (value?_setValue_of_ne heq).trans hfound⟩

theorem size_setValue : (state.setValue id value).values.size = state.values.size := by
  simp [setValue]

/-- A node that is met for the first time is one less without a value. -/
theorem card_unmet_setValue (h : id < state.values.size) (hnone : state.value? id = none) :
    (state.setValue id value).unmet.card + 1 = state.unmet.card := by
  have hmem : id ∈ state.unmet := by simp [unmet, h, hnone]
  have herase : (state.setValue id value).unmet = state.unmet.erase id := by
    ext other
    by_cases hother : other = id
    · subst hother
      simp [unmet, value?_setValue_self h]
    · simp [unmet, value?_setValue_of_ne hother, size_setValue, hother]
  rw [herase, Finset.card_erase_add_one hmem]

/-- A new value for a node that has one leaves the others without one as they are. -/
theorem unmet_setValue (hmet : state.Met id) : (state.setValue id value).unmet = state.unmet := by
  obtain ⟨old, hold⟩ := hmet
  ext other
  by_cases hother : other = id
  · subst hother
    by_cases hsize : other < state.values.size
    · simp [unmet, value?_setValue_self hsize, hold]
    · simp [unmet, size_setValue, hsize]
  · simp [unmet, value?_setValue_of_ne hother, size_setValue]

end Values

variable {graph : Graph} {todo : List Nat} {state : Construction} {id : Nat}

theorem settled_text_iff {text : CodeText} (h : state.graph.Has id ⟨.str, .scalar text⟩) :
    state.Settled id ↔ state.value? id = some (.scalar (.text text)) := by
  rw [Settled, h.2]

theorem settled_list_iff {items : List Nat} (h : state.graph.Has id ⟨.seq, .sequence items⟩) :
    state.Settled id ↔ state.value? id = some (.list items) ∧ ∀ item ∈ items, state.Met item := by
  rw [Settled, h.2]

theorem settled_mapping_iff {pairs : List (Nat × Nat)}
    (h : state.graph.Has id ⟨.map, .mapping pairs⟩) :
    state.Settled id ↔ state.value? id = some (.mapping pairs) ∧
      ∀ pair ∈ pairs, state.Met pair.1 ∧ state.Met pair.2 := by
  rw [Settled, h.2]

/-- What is settled stays so. -/
theorem Settled.keep {after : Construction} (h : state.Settled id)
    (hgraph : after.graph = state.graph) (hmet : ∀ other, state.Met other → after.Met other)
    (hvalue : after.value? id = state.value? id) : after.Settled id := by
  unfold Settled at h ⊢
  rw [hgraph, hvalue]
  split at h
  next => exact h
  next => exact ⟨h.1, fun item hitem => hmet item (h.2 item hitem)⟩
  next => exact ⟨h.1, fun pair hpair => ⟨hmet _ (h.2 pair hpair).1, hmet _ (h.2 pair hpair).2⟩⟩

/-- A text has its value at once. -/
theorem scalarValue_text {text : CodeText} (h : graph.Has id ⟨.str, .scalar text⟩) :
    scalarValue graph id = .ok (.scalar (.text text)) := by
  have htag : graph.tag id = .str := by rw [Graph.tag, h.2]
  have htext : graph.scalarText id = .ok text := by
    rw [Graph.scalarText, Graph.scalarTextFrom, h.2]
  simp [scalarValue, htag, htext, ScalarValue.ofTagged]
  rfl

/-- Where a collection waits, fewer nodes have no value than there is left to do. -/
theorem waiting_eq_nil_or_unmet_lt {limit : Nat} (h : state.budget ≤ limit) :
    state.waiting = [] ∨ state.unmet.card < limit := by
  rw [budget] at h
  cases hwaiting : state.waiting with
  | nil => exact Or.inl rfl
  | cons id waiting =>
      rw [hwaiting, List.length_cons] at h
      exact Or.inr (by omega)

theorem Sound.suits_setValue (h : Sound graph todo state) (hplain : graph.Plain id) {value : Value}
    (hsuits : Suits (graph.get id) value) {other : Nat} {found : Value}
    (hfound : (state.setValue id value).value? other = some found) :
    graph.Plain other ∧ Suits (graph.get other) found := by
  by_cases heq : other = id
  · subst heq
    have hself : (state.setValue other value).value? other = some value :=
      value?_setValue_self (h.size ▸ hplain.lt_size)
    obtain rfl : value = found := Option.some.inj (hself.symm.trans hfound)
    exact ⟨hplain, hsuits⟩
  · exact h.suits other found ((value?_setValue_of_ne heq).symm.trans hfound)

/-- A new value for a node settles no other and unsettles none. -/
theorem Sound.settled_setValue (h : Sound graph todo state) {value : Value} {other : Nat}
    (hne : other ≠ id) (hmet : (state.setValue id value).Met other) :
    other ∈ todo ++ state.waiting ∨ (state.setValue id value).Settled other := by
  obtain ⟨found, hfound⟩ := hmet
  have hsame : (state.setValue id value).value? other = state.value? other :=
    value?_setValue_of_ne hne
  exact (h.settled other ⟨found, hsame.symm.trans hfound⟩).imp_right
    fun hsettled => hsettled.keep rfl (fun _ => met_setValue) hsame

/-- The state after a node was met for the first time. -/
def first (state : Construction) (id : Nat) (value : Value) (waiting : List Nat) : Construction :=
  { state.setValue id value with waiting := waiting }

theorem Sound.first (h : Sound graph todo state) (hplain : graph.Plain id)
    (hnone : state.value? id = none) {value : Value} {waiting : List Nat}
    (hsuits : Suits (graph.get id) value)
    (hwaiting : waiting = state.waiting ∨ waiting = id :: state.waiting ∧ value.isCollection = true)
    (hown : id ∈ waiting ∨ (state.first id value waiting).Settled id) :
    Sound graph todo (state.first id value waiting) ∧ Keeps state (state.first id value waiting) ∧
      (state.first id value waiting).Met id := by
  have hsize : id < state.values.size := h.size ▸ hplain.lt_size
  have hself : (state.first id value waiting).value? id = some value := value?_setValue_self hsize
  have hvalues : ∀ other found, state.value? other = some found →
      (state.first id value waiting).value? other = some found := by
    intro other found hfound
    have hne : other ≠ id := by
      rintro rfl
      simp [hnone] at hfound
    exact (value?_setValue_of_ne hne).trans hfound
  have hkept : ∀ other ∈ todo ++ state.waiting, other ∈ todo ++ waiting := by
    intro other hmem
    rcases hwaiting with rfl | ⟨rfl, -⟩
    · exact hmem
    · simp only [List.mem_append, List.mem_cons] at hmem ⊢
      tauto
  refine ⟨⟨h.same, size_setValue.trans h.size, fun _ _ => h.suits_setValue hplain hsuits, ?_, ?_⟩,
    ⟨⟨fun _ => met_setValue, ?_⟩, hvalues⟩, value, hself⟩
  · intro other hmem
    by_cases hold : other ∈ todo ++ state.waiting
    · obtain ⟨found, hfound, hcollection⟩ := h.waits other hold
      exact ⟨found, hvalues other found hfound, hcollection⟩
    · rcases hwaiting with rfl | ⟨rfl, hcollection⟩
      · exact absurd hmem hold
      · have hmem : other ∈ todo ++ id :: state.waiting := hmem
        obtain rfl : other = id := by
          simp only [List.mem_append, List.mem_cons] at hmem hold
          tauto
        exact ⟨value, hself, hcollection⟩
  · intro other hmet
    by_cases heq : other = id
    · subst heq
      exact hown.imp_left (List.mem_append_right todo)
    · exact (h.settled_setValue heq hmet).imp_left (hkept other)
  · have hcard : (state.setValue id value).unmet.card + 1 = state.unmet.card :=
      card_unmet_setValue hsize hnone
    have hless : waiting.length ≤ state.waiting.length + 1 := by
      rcases hwaiting with rfl | ⟨rfl, -⟩
      · exact Nat.le_succ _
      · exact Nat.le_refl _
    show waiting.length + (state.setValue id value).unmet.card ≤ _
    rw [budget, ← hcard]
    omega

/-- A plain node can be met. -/
theorem meet_sound (h : Sound graph todo state) (hplain : graph.Plain id) :
    ∃ after, state.meet id = .ok after ∧ Sound graph todo after ∧ Keeps state after ∧
      after.Met id := by
  cases hvalue : state.value? id with
  | some value =>
      exact ⟨state, by rw [meet, hvalue], h, Keeps.refl state, value, hvalue⟩
  | none =>
      have hsize : id < state.values.size := h.size ▸ hplain.lt_size
      have hgraph := h.same
      have hplain' := hplain
      cases hplain' with
      | @text _ text hhas =>
          have hmeet : state.meet id =
              .ok (state.first id (.scalar (.text text)) state.waiting) := by
            have htag : state.graph.tag id = .str := by rw [hgraph, Graph.tag, hhas.2]
            rw [meet, hvalue, htag, hgraph, scalarValue_text hhas]
            rfl
          refine ⟨_, hmeet, h.first hplain hvalue ?_ (Or.inl rfl) (Or.inr ?_)⟩
          · simp [Suits, hhas.2]
          · exact (settled_text_iff (hgraph ▸ hhas)).2 (value?_setValue_self hsize)
      | @list _ items hhas hitems =>
          have hmeet : state.meet id = .ok (state.first id (.list []) (id :: state.waiting)) := by
            have htag : state.graph.tag id = .seq := by rw [hgraph, Graph.tag, hhas.2]
            rw [meet, hvalue, htag]
            rfl
          refine ⟨_, hmeet, h.first hplain hvalue ?_ (Or.inr ⟨rfl, rfl⟩)
            (Or.inl List.mem_cons_self)⟩
          simp [Suits, hhas.2]
      | @mapping _ pairs hhas hkeys hvalues =>
          have hmeet : state.meet id =
              .ok (state.first id (.mapping []) (id :: state.waiting)) := by
            have htag : state.graph.tag id = .map := by rw [hgraph, Graph.tag, hhas.2]
            rw [meet, hvalue, htag]
            rfl
          refine ⟨_, hmeet, h.first hplain hvalue ?_ (Or.inr ⟨rfl, rfl⟩)
            (Or.inl List.mem_cons_self)⟩
          simp [Suits, hhas.2]

theorem meetItems_sound (h : Sound graph todo state) {items : List Nat}
    (hitems : ∀ item ∈ items, graph.Plain item) :
    ∃ after, state.meetItems items = .ok after ∧ Sound graph todo after ∧ Keeps state after ∧
      ∀ item ∈ items, after.Met item := by
  induction items generalizing state with
  | nil => exact ⟨state, rfl, h, Keeps.refl state, fun _ hitem => absurd hitem List.not_mem_nil⟩
  | cons item items ih =>
      obtain ⟨hitem, hrest⟩ := List.forall_mem_cons.1 hitems
      obtain ⟨next, hmeet, hnext, hkeeps, hmet⟩ := meet_sound h hitem
      obtain ⟨after, hmeets, hafter, hkeeps', hmets⟩ := ih hnext hrest
      refine ⟨after, ?_, hafter, hkeeps.trans hkeeps',
        List.forall_mem_cons.2 ⟨hkeeps'.met item hmet, hmets⟩⟩
      rw [meetItems, List.foldlM_cons, hmeet]
      exact hmeets

theorem meetPairs_sound (h : Sound graph todo state) {pairs : List (Nat × Nat)}
    (hkeys : ∀ pair ∈ pairs, ∃ text, graph.Has pair.1 ⟨.str, .scalar text⟩)
    (hvalues : ∀ pair ∈ pairs, graph.Plain pair.2) :
    ∃ after, state.meetPairs pairs = .ok after ∧ Sound graph todo after ∧ Keeps state after ∧
      ∀ pair ∈ pairs, after.Met pair.1 ∧ after.Met pair.2 := by
  induction pairs generalizing state with
  | nil => exact ⟨state, rfl, h, Keeps.refl state, fun _ hpair => absurd hpair List.not_mem_nil⟩
  | cons pair pairs ih =>
      obtain ⟨⟨text, hkey⟩, hkeys⟩ := List.forall_mem_cons.1 hkeys
      obtain ⟨hvalue, hvalues⟩ := List.forall_mem_cons.1 hvalues
      obtain ⟨first, hfirst, hsound, hkeeps, value, hfound⟩ := meet_sound h (.text hkey)
      have hscalar : first.isCollection pair.1 = false := by
        have hsuits := (hsound.suits pair.1 value hfound).2
        rw [Suits, hkey.2] at hsuits
        rw [isCollection, hfound, hsuits]
        rfl
      obtain ⟨next, hmeet, hnext, hkeeps', hmet⟩ := meet_sound hsound hvalue
      obtain ⟨after, hmeets, hafter, hkeeps'', hmets⟩ := ih hnext hkeys hvalues
      refine ⟨after, ?_, hafter, (hkeeps.trans hkeeps').trans hkeeps'', List.forall_mem_cons.2
        ⟨⟨(hkeeps'.trans hkeeps'').met pair.1 ⟨value, hfound⟩, hkeeps''.met pair.2 hmet⟩, hmets⟩⟩
      rw [meetPairs, List.foldlM_cons, hfirst]
      simp only [Except.bind, bind]
      rw [hscalar]
      simp only [Bool.false_eq_true, if_false, hmeet]
      exact hmeets

/-- A collection that waits is completed. -/
theorem Sound.completed (h : Sound graph (id :: todo) state) {value : Value}
    (hsuits : Suits (graph.get id) value) (hcollection : value.isCollection = true)
    (hown : (state.setValue id value).Settled id) :
    Sound graph todo (state.setValue id value) ∧ Onward state (state.setValue id value) := by
  obtain ⟨old, hold, -⟩ := h.waits id List.mem_cons_self
  have hplain := (h.suits id old hold).1
  have hself : (state.setValue id value).value? id = some value :=
    value?_setValue_self (h.size ▸ hplain.lt_size)
  refine ⟨⟨h.same, size_setValue.trans h.size, fun _ _ => h.suits_setValue hplain hsuits, ?_, ?_⟩,
    fun _ => met_setValue, ?_⟩
  · intro other hmem
    by_cases heq : other = id
    · exact ⟨value, heq ▸ hself, hcollection⟩
    · obtain ⟨found, hfound, hwaits⟩ := h.waits other (List.mem_cons_of_mem id hmem)
      exact ⟨found, (value?_setValue_of_ne heq).trans hfound, hwaits⟩
  · intro other hmet
    by_cases heq : other = id
    · exact Or.inr (heq ▸ hown)
    · exact (h.settled_setValue heq hmet).imp_left
        fun hmem => (List.mem_cons.1 hmem).resolve_left heq
  · show state.waiting.length + (state.setValue id value).unmet.card ≤ _
    rw [unmet_setValue ⟨old, hold⟩]
    exact Nat.le_refl _

/-- A mapping into which nothing is merged is filled with its own pairs. -/
theorem fillMapping_eq {pairs : List (Nat × Nat)} (make : List (Nat × Nat) → Value)
    {next : Construction} (h : state.graph.Has id ⟨.map, .mapping pairs⟩)
    (hkeys : ∀ pair ∈ pairs, ∃ text, state.graph.Has pair.1 ⟨.str, .scalar text⟩)
    (hmeets : state.meetPairs pairs = .ok next) :
    state.fillMapping id make = .ok (next.setValue id (make pairs)) := by
  have hmapping : state.graph.isMapping id = true := by rw [Graph.isMapping, h.2]
  have hpairs : state.graph.pairs id = pairs := by rw [Graph.pairs, h.2]
  simp only [fillMapping, hmapping, Graph.absorb_eq_self h hkeys, if_true]
  show (state.meetPairs (state.graph.pairs id) >>= fun found =>
    pure (found.setValue id (make (state.graph.pairs id)))) = _
  rw [hpairs, hmeets]
  rfl

/-- A collection of this round is filled. -/
theorem fill_sound (h : Sound graph (id :: todo) state) :
    ∃ after, state.fill id = .ok after ∧ Sound graph todo after ∧ Onward state after := by
  obtain ⟨value, hvalue, hcollection⟩ := h.waits id List.mem_cons_self
  obtain ⟨hplain, hsuits⟩ := h.suits id value hvalue
  have hgraph := h.same
  cases hplain with
  | @text _ text hhas =>
      rw [Suits, hhas.2] at hsuits
      exact absurd hcollection (by rw [hsuits]; exact Bool.false_ne_true)
  | @list _ items hhas hitems =>
      rw [Suits, hhas.2] at hsuits
      obtain ⟨old, rfl⟩ := hsuits
      obtain ⟨next, hmeets, hnext, hkeeps, hmets⟩ := meetItems_sound h hitems
      have hsize : id < next.values.size := hnext.size ▸ hhas.1
      have hown : (next.setValue id (.list items)).Settled id := by
        refine (settled_list_iff (hnext.same ▸ hhas)).2 ⟨value?_setValue_self hsize, ?_⟩
        exact fun item hitem => met_setValue (hmets item hitem)
      obtain ⟨hafter, honward⟩ :=
        hnext.completed (by rw [Suits, hhas.2]; exact ⟨items, rfl⟩) rfl hown
      refine ⟨next.setValue id (.list items), ?_, hafter, hkeeps.toOnward.trans honward⟩
      simp only [fill, hvalue, hgraph, hhas.2, hmeets]
      rfl
  | @mapping _ pairs hhas hkeys hvalues =>
      rw [Suits, hhas.2] at hsuits
      obtain ⟨old, rfl⟩ := hsuits
      obtain ⟨next, hmeets, hnext, hkeeps, hmets⟩ := meetPairs_sound h hkeys hvalues
      have hsize : id < next.values.size := hnext.size ▸ hhas.1
      have hown : (next.setValue id (.mapping pairs)).Settled id := by
        refine (settled_mapping_iff (hnext.same ▸ hhas)).2 ⟨value?_setValue_self hsize, ?_⟩
        exact fun pair hpair => (hmets pair hpair).imp met_setValue met_setValue
      obtain ⟨hafter, honward⟩ :=
        hnext.completed (by rw [Suits, hhas.2]; exact ⟨pairs, rfl⟩) rfl hown
      refine ⟨next.setValue id (.mapping pairs), ?_, hafter, hkeeps.toOnward.trans honward⟩
      simp only [fill, hvalue]
      exact fillMapping_eq .mapping (hgraph ▸ hhas) (hgraph ▸ hkeys) hmeets

/-- All collections of a round are filled. -/
theorem round_sound (h : Sound graph todo state) :
    ∃ after, todo.foldlM fill state = .ok after ∧ Sound graph [] after ∧ Onward state after := by
  induction todo generalizing state with
  | nil => exact ⟨state, rfl, h, fun _ hid => hid, Nat.le_refl _⟩
  | cons id todo ih =>
      obtain ⟨next, hfill, hnext, honward⟩ := fill_sound h
      obtain ⟨after, hround, hafter, honward'⟩ := ih hnext
      refine ⟨after, ?_, hafter, honward.trans honward'⟩
      rw [List.foldlM_cons, hfill]
      exact hround

/-- The rounds come to an end: each fills what was met in the one before, and no node is met
twice. -/
theorem drain_sound {rounds : Nat} (h : Sound graph [] state)
    (hrounds : state.waiting = [] ∨ state.unmet.card < rounds) :
    ∃ after, drain rounds state = .ok after ∧ Sound graph [] after ∧ after.waiting = [] ∧
      ∀ id, state.Met id → after.Met id := by
  induction rounds generalizing state with
  | zero =>
      have hempty : state.waiting = [] := hrounds.resolve_right (Nat.not_lt_zero _)
      exact ⟨state, rfl, h, hempty, fun _ hid => hid⟩
  | succ rounds ih =>
      by_cases hempty : state.waiting = []
      · refine ⟨state, ?_, h, hempty, fun _ hid => hid⟩
        rw [drain, if_pos (List.isEmpty_iff.2 hempty)]
      · have hfew : state.unmet.card < rounds + 1 := hrounds.resolve_left hempty
        have hstart : Sound graph state.waiting.reverse { state with waiting := [] } :=
          ⟨h.same, h.size, h.suits, fun id hid => h.waits id (by simpa using hid),
            fun id hid => (h.settled id hid).imp_left fun hmem => by simpa using hmem⟩
        obtain ⟨next, hround, hnext, honward⟩ := round_sound hstart
        have hless : next.budget ≤ 0 + state.unmet.card := honward.budget
        obtain ⟨after, hdrain, hafter, hdone, hmet⟩ :=
          ih hnext (waiting_eq_nil_or_unmet_lt (by omega))
        refine ⟨after, ?_, hafter, hdone, fun id hid => hmet id (honward.met id hid)⟩
        rw [drain, if_neg (by simpa [List.isEmpty_iff] using hempty), hround]
        exact hdrain

/-- The nodes of a document whose root is plain have values, and all that are met are settled. -/
theorem ofNode_sound {root : Node} (h : (Graph.ofNode root).Plain Graph.root) :
    ∃ state, ofNode root = .ok state ∧ state.graph = Graph.ofNode root ∧
      state.Met Graph.root ∧ ∀ id, state.Met id → state.Settled id := by
  generalize hgraph : Graph.ofNode root = graph at h
  have hnone : ∀ id, ¬ Met ⟨graph, Array.replicate graph.nodes.size none, []⟩ id := by
    rintro id ⟨value, hvalue⟩
    by_cases hid : id < graph.nodes.size <;> simp [value?, hid] at hvalue
  have hstart : Sound graph [] ⟨graph, Array.replicate graph.nodes.size none, []⟩ :=
    ⟨rfl, Array.size_replicate, fun id value hvalue => absurd ⟨value, hvalue⟩ (hnone id),
      fun id hid => absurd hid List.not_mem_nil, fun id hid => absurd hid (hnone id)⟩
  obtain ⟨next, hmeet, hnext, hkeeps, hroot⟩ := meet_sound hstart h
  have hall : (unmet ⟨graph, Array.replicate graph.nodes.size none, []⟩).card ≤
      graph.nodes.size := by
    have hcard := Finset.card_filter_le (Finset.range graph.nodes.size) fun id =>
      value? ⟨graph, Array.replicate graph.nodes.size none, []⟩ id = none
    rw [Finset.card_range] at hcard
    rwa [unmet, Array.size_replicate]
  have hless : next.budget ≤ 0 + _ := hkeeps.budget
  have hrounds : next.waiting = [] ∨ next.unmet.card < graph.nodes.size :=
    waiting_eq_nil_or_unmet_lt (by omega)
  obtain ⟨after, hdrain, hafter, hdone, hmet⟩ := drain_sound hnext hrounds
  refine ⟨after, ?_, hafter.same, hmet _ hroot, fun id hid => ?_⟩
  · simp only [ofNode, hgraph]
    rw [hmeet]
    exact hdrain
  · exact (hafter.settled id hid).resolve_left (by simp [hdone])

end Construction
end Yaml
end ContractAdmission
