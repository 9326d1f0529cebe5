import ContractAdmission.Proofs.Yaml.FlowTokens
import ContractAdmission.Yaml.Node

/-!
# The node of JSON text

Brackets, braces and quotes make the same tree of nodes as the value has: a sequence for an
array, a mapping for an object, and for a string a scalar that is text whatever it looks like.

* `Json.node` — the node of a value.
* `Parser.node_runs` — it is read from the tokens of the value, whatever follows.
* `Document.ofTokens_tokens` — so the only document that the tokens make is that node.
-/

namespace ContractAdmission
namespace Json

mutual

/-- The node of a value. -/
def node : Json → Yaml.Node
  | .null => .scalar none .null (.whole "null")
  | .bool value => .scalar none .bool (.whole (String.ofList (boolWord value)))
  | .string value => .scalar none .str (.whole value)
  | .array items => .sequence none .seq (itemNodes items)
  | .object members => .mapping none .map (memberNodes members)

/-- The nodes of items. -/
def itemNodes : List Json → List Yaml.Node
  | [] => []
  | item :: rest => node item :: itemNodes rest

/-- The nodes of members: a pair for each. -/
def memberNodes : List (String × Json) → List (Yaml.Node × Yaml.Node)
  | [] => []
  | (key, value) :: rest => (.scalar none .str (.whole key), node value) :: memberNodes rest

end

mutual

/-- The number of brackets that are open where a value is nested most deeply. -/
def depth : Json → Nat
  | .null | .bool _ | .string _ => 0
  | .array items => itemsDepth items + 1
  | .object members => membersDepth members + 1

/-- The greatest depth of items. -/
def itemsDepth : List Json → Nat
  | [] => 0
  | item :: rest => max (depth item) (itemsDepth rest)

/-- The greatest depth of members. -/
def membersDepth : List (String × Json) → Nat
  | [] => 0
  | (_, value) :: rest => max (depth value) (membersDepth rest)

end

/-- What stands before items: a comma, if there are any, and others before them. -/
def separator {α : Type} (first : Bool) (items : List α) : List Yaml.Token :=
  if first || items.isEmpty then [] else [.flowEntry]

theorem itemTokens_cons (item : Json) (items : List Json) :
    itemTokens (item :: items) = item.tokens ++ (separator false items ++ itemTokens items) := by
  cases items with
  | nil => simp [itemTokens, separator]
  | cons next items => simp [itemTokens, separator]

theorem memberTokens_cons (key : String) (value : Json) (members : List (String × Json)) :
    memberTokens ((key, value) :: members) = [.key, .scalar (.whole key) false, .value] ++
      (value.tokens ++ (separator false members ++ memberTokens members)) := by
  cases members with
  | nil => simp [memberTokens, separator]
  | cons next members => simp [memberTokens, separator]

/-- A token that the tokens of a value of strings can begin with. -/
def Begins (token : Yaml.Token) : Prop :=
  (∃ text, token = .scalar text false) ∨ token = .flowSequenceStart ∨ token = .flowMappingStart

theorem tokens_eq_cons {value : Json} (h : value.Quoted) :
    ∃ token later, value.tokens = token :: later ∧ Begins token := by
  cases value with
  | null => exact absurd h (by simp [Quoted])
  | bool value => exact absurd h (by simp [Quoted])
  | string value => exact ⟨_, [], rfl, Or.inl ⟨.whole value, rfl⟩⟩
  | array items => exact ⟨_, _, rfl, Or.inr (Or.inl rfl)⟩
  | object members => exact ⟨_, _, rfl, Or.inr (Or.inr rfl)⟩

end Json

namespace Yaml
namespace Parser

variable {handles : Handles} {anchors : List String}

/-- The state in which some tokens are still to be taken. -/
def left (tokens : List Token) (anchors : List String) : Reading := ⟨⟨tokens, none⟩, anchors⟩

variable {token : Token} {rest : List Token}

theorem peek_runs : Runs peek (left (token :: rest) anchors) token (left (token :: rest) anchors) :=
  Runs.bind (Runs.get _) (Runs.pure token _)

theorem next_runs : Runs next (left (token :: rest) anchors) ⟨⟩ (left rest anchors) :=
  Runs.modified _ _

theorem isNext_runs (tokens : List Token) :
    Runs (isNext tokens) (left (token :: rest) anchors) (tokens.contains token)
      (left (token :: rest) anchors) :=
  Runs.bind peek_runs (Runs.pure _ _)

theorem declare_none (state : Reading) : Runs (declare none) state ⟨⟩ state := Runs.pure _ state

/-- Where a value begins, it has neither an anchor nor a tag. -/
theorem properties_runs (h : Json.Begins token) :
    Runs properties (left (token :: rest) anchors) (none, none) (left (token :: rest) anchors) := by
  have hanchor : Runs anchor? (left (token :: rest) anchors) none
      (left (token :: rest) anchors) := by
    refine Runs.bind peek_runs ?_
    rcases h with ⟨text, rfl⟩ | rfl | rfl <;> exact Runs.pure _ _
  have htag : Runs tag? (left (token :: rest) anchors) none (left (token :: rest) anchors) := by
    refine Runs.bind peek_runs ?_
    rcases h with ⟨text, rfl⟩ | rfl | rfl <;> exact Runs.pure _ _
  exact Runs.bind hanchor (Runs.bind htag (Runs.pure _ _))

theorem nodeUnless_runs {tokens : List Token} {action : Parser Node} {found : Node}
    {after : Reading} (h : tokens.contains token = false)
    (haction : Runs action (left (token :: rest) anchors) found after) :
    Runs (nodeUnless tokens action) (left (token :: rest) anchors) found after :=
  Runs.testFalse (h ▸ isNext_runs tokens) haction

/-! ### Single nodes -/

section Nodes

variable {inBlock unindented : Bool} {levels bound : Nat} {after : Reading}

theorem scalar_runs {text : CodeText} (hlevels : 0 < levels) :
    Runs (node handles inBlock unindented levels (bound + 1))
      (left (.scalar text false :: rest) anchors) (.scalar none .str text) (left rest anchors) := by
  unfold node
  refine Runs.ifFalse (Nat.ne_of_gt hlevels) (Runs.bind peek_runs (Runs.bind
    (properties_runs (Or.inl ⟨text, rfl⟩)) ?_))
  exact Runs.bind (Runs.pure none _) (Runs.bind peek_runs (Runs.bind next_runs
    (Runs.bind (declare_none _) (Runs.pure _ _))))

theorem sequence_runs {items : List Node} (hlevels : 0 < levels)
    (hitems : Runs (flowItems handles true (levels - 1) bound) (left rest anchors) items after) :
    Runs (node handles inBlock unindented levels (bound + 1))
      (left (.flowSequenceStart :: rest) anchors) (.sequence none .seq items) after := by
  unfold node
  refine Runs.ifFalse (Nat.ne_of_gt hlevels) (Runs.bind peek_runs (Runs.bind
    (properties_runs (Or.inr (Or.inl rfl))) ?_))
  exact Runs.bind (Runs.pure none _) (Runs.bind peek_runs (Runs.bind next_runs
    (Runs.bind (declare_none _) (Runs.bind hitems (Runs.pure _ _)))))

theorem mapping_runs {pairs : List (Node × Node)} (hlevels : 0 < levels)
    (hpairs : Runs (flowPairs handles true (levels - 1) bound) (left rest anchors) pairs after) :
    Runs (node handles inBlock unindented levels (bound + 1))
      (left (.flowMappingStart :: rest) anchors) (.mapping none .map pairs) after := by
  unfold node
  refine Runs.ifFalse (Nat.ne_of_gt hlevels) (Runs.bind peek_runs (Runs.bind
    (properties_runs (Or.inr (Or.inr rfl))) ?_))
  exact Runs.bind (Runs.pure none _) (Runs.bind peek_runs (Runs.bind next_runs
    (Runs.bind (declare_none _) (Runs.bind hpairs (Runs.pure _ _)))))

/-- Where one more item or pair stands, the closing token is not next, and the comma before it is
taken unless it is the first. -/
theorem separated_runs {α β : Type} {first : Bool} {item : β} {items : List β} {closing : Token}
    {closed : Parser α} {later : PUnit → Parser α} {found : α} (hclosing : closing ≠ .flowEntry)
    (htoken : token ≠ closing)
    (hlater : Runs (later ⟨⟩) (left (token :: rest) anchors) found after) :
    Runs (isNext [closing] >>= fun ends => if ends = true then closed
      else if (!first) = true then
        isNext [.flowEntry] >>= fun comma =>
          if comma = true then next >>= later else refuse >>= later
      else later ⟨⟩)
      (left (Json.separator first (item :: items) ++ token :: rest) anchors) found after := by
  cases first with
  | true =>
      have hother : [closing].contains token = false := by simp [htoken]
      exact Runs.testFalse (hother ▸ isNext_runs _) (Runs.ifFalse (by decide) hlater)
  | false =>
      have hother : [closing].contains Token.flowEntry = false := by simp [hclosing.symm]
      exact Runs.testFalse (hother ▸ isNext_runs _) (Runs.ifTrue rfl
        (Runs.testTrue (isNext_runs _) (Runs.bind next_runs hlater)))

end Nodes

/-! ### Nested nodes -/

mutual

/-- The node of a value is read from the tokens of the value, whatever follows. -/
theorem node_runs : ∀ (value : Json) (inBlock unindented : Bool) {levels : Nat} (bound : Nat)
    (rest : List Token), value.Quoted → value.depth < levels → value.tokens.length ≤ bound →
      Runs (node handles inBlock unindented levels bound) (left (value.tokens ++ rest) anchors)
        value.node (left rest anchors)
  | .string value, inBlock, unindented, levels, bound + 1, rest, _, hlevels, _ =>
      scalar_runs hlevels
  | .array items, inBlock, unindented, levels, bound + 1, rest, hvalue, hlevels, hbound => by
      have htokens : (Json.array items).tokens ++ rest = .flowSequenceStart ::
          (Json.separator true items ++ (Json.itemTokens items ++ .flowSequenceEnd :: rest)) := by
        simp [Json.tokens, Json.separator]
      have hfew : (Json.separator true items ++ Json.itemTokens items).length < bound := by
        simp [Json.tokens, Json.separator] at hbound ⊢
        omega
      rw [htokens]
      exact sequence_runs (Nat.lt_of_le_of_lt (Nat.zero_le _) hlevels)
        (flowItems_runs items true bound rest hvalue (Nat.lt_sub_of_add_lt hlevels) hfew)
  | .object members, inBlock, unindented, levels, bound + 1, rest, hvalue, hlevels, hbound => by
      have htokens : (Json.object members).tokens ++ rest = .flowMappingStart ::
          (Json.separator true members ++
            (Json.memberTokens members ++ .flowMappingEnd :: rest)) := by
        simp [Json.tokens, Json.separator]
      have hfew : (Json.separator true members ++ Json.memberTokens members).length < bound := by
        simp [Json.tokens, Json.separator] at hbound ⊢
        omega
      rw [htokens]
      exact mapping_runs (Nat.lt_of_le_of_lt (Nat.zero_le _) hlevels)
        (flowPairs_runs members true bound rest hvalue (Nat.lt_sub_of_add_lt hlevels) hfew)
  | .string _, _, _, _, 0, _, _, _, h => absurd h (by simp [Json.tokens])
  | .array _, _, _, _, 0, _, _, _, h => absurd h (by simp [Json.tokens])
  | .object _, _, _, _, 0, _, _, _, h => absurd h (by simp [Json.tokens])

theorem flowItems_runs : ∀ (items : List Json) (first : Bool) {levels : Nat} (bound : Nat)
    (rest : List Token), Json.QuotedItems items → Json.itemsDepth items < levels →
      (Json.separator first items ++ Json.itemTokens items).length < bound →
      Runs (flowItems handles first levels bound)
        (left (Json.separator first items ++ (Json.itemTokens items ++ .flowSequenceEnd :: rest))
          anchors) (Json.itemNodes items) (left rest anchors)
  | _, _, _, 0, _, _, _, h => absurd h (Nat.not_lt_zero _)
  | [], first, levels, bound + 1, rest, _, _, _ => by
      have htokens : Json.separator first ([] : List Json) = [] := by simp [Json.separator]
      rw [htokens]
      unfold flowItems
      exact Runs.testTrue (isNext_runs _) (Runs.bind next_runs (Runs.pure [] _))
  | item :: items, first, levels, bound + 1, rest, hitems, hlevels, hbound => by
      obtain ⟨token, later, htokens, hbegins⟩ := Json.tokens_eq_cons hitems.1
      rw [Json.itemsDepth, Nat.max_lt] at hlevels
      rw [Json.itemTokens_cons, List.length_append, List.length_append] at hbound
      have hlong : 0 < item.tokens.length := by rw [htokens]; exact Nat.succ_pos _
      have hitem := node_runs item false false bound
        (Json.separator false items ++ (Json.itemTokens items ++ .flowSequenceEnd :: rest))
        hitems.1 hlevels.1 (by omega)
      have hrest := flowItems_runs items false bound rest hitems.2 hlevels.2 (by omega)
      rw [Json.itemTokens_cons]
      simp only [List.append_assoc, htokens, List.cons_append] at hitem ⊢
      have hother : token ≠ .flowSequenceEnd := by
        rcases hbegins with ⟨text, rfl⟩ | rfl | rfl <;> simp
      unfold flowItems
      refine separated_runs (by simp) hother (Runs.bind peek_runs ?_)
      -- No token that a value can begin with has a branch of its own.
      rcases hbegins with ⟨text, rfl⟩ | rfl | rfl
      · exact Runs.bind hitem (Runs.bind hrest (Runs.pure _ _))
      · exact Runs.bind hitem (Runs.bind hrest (Runs.pure _ _))
      · exact Runs.bind hitem (Runs.bind hrest (Runs.pure _ _))

theorem flowPairs_runs : ∀ (members : List (String × Json)) (first : Bool) {levels : Nat}
    (bound : Nat) (rest : List Token), Json.QuotedMembers members →
      Json.membersDepth members < levels →
      (Json.separator first members ++ Json.memberTokens members).length < bound →
      Runs (flowPairs handles first levels bound)
        (left (Json.separator first members ++
          (Json.memberTokens members ++ .flowMappingEnd :: rest)) anchors)
        (Json.memberNodes members) (left rest anchors)
  | _, _, _, 0, _, _, _, h => absurd h (Nat.not_lt_zero _)
  | [], first, levels, bound + 1, rest, _, _, _ => by
      have htokens : Json.separator first ([] : List (String × Json)) = [] := by
        simp [Json.separator]
      rw [htokens]
      unfold flowPairs
      exact Runs.testTrue (isNext_runs _) (Runs.bind next_runs (Runs.pure [] _))
  | (key, value) :: members, first, levels, bound + 1, rest, hmembers, hlevels, hbound => by
      obtain ⟨-, hvalue, hlater⟩ := hmembers
      obtain ⟨token, later, htokens, hbegins⟩ := Json.tokens_eq_cons hvalue
      rw [Json.membersDepth, Nat.max_lt] at hlevels
      rw [Json.memberTokens_cons, List.length_append, List.length_append, List.length_append,
        List.length_cons, List.length_cons, List.length_singleton] at hbound
      obtain ⟨bound, rfl⟩ := Nat.exists_eq_add_one_of_ne_zero (n := bound) (by omega)
      have hitem := node_runs value false false (bound + 1)
        (Json.separator false members ++ (Json.memberTokens members ++ .flowMappingEnd :: rest))
        hvalue hlevels.1 (by omega)
      have hrest := flowPairs_runs members false (bound + 1) rest hlater hlevels.2 (by omega)
      have hother : [Token.flowEntry, .flowMappingEnd].contains token = false := by
        rcases hbegins with ⟨text, rfl⟩ | rfl | rfl <;> simp
      rw [Json.memberTokens_cons]
      simp only [List.append_assoc, htokens, List.cons_append, List.nil_append] at hitem ⊢
      have hpositive : 0 < levels := Nat.lt_of_le_of_lt (Nat.zero_le _) hlevels.1
      have hpair := nodeUnless_runs hother hitem
      unfold flowPairs
      refine separated_runs (by simp) (by simp) (Runs.bind peek_runs (Runs.bind next_runs
        (Runs.bind (nodeUnless_runs (by simp) (scalar_runs hpositive)) ?_)))
      exact Runs.testTrue (isNext_runs _) (Runs.bind next_runs
        (Runs.bind hpair (Runs.bind hrest (Runs.pure _ _))))

end

theorem skipEnds_runs (bound : Nat) :
    Runs (skipEnds bound) (left (.streamEnd :: rest) anchors) ⟨⟩
      (left (.streamEnd :: rest) anchors) := by
  cases bound with
  | zero => exact Runs.pure _ _
  | succ bound =>
      exact Runs.testFalse (isNext_runs _) (Runs.pure _ _)

theorem document_runs {value : Json} (h : value.Quoted) (hdepth : value.depth < maxLevels)
    {bound : Nat} (hbound : value.tokens.length ≤ bound) :
    Runs (document bound) (left (value.tokens ++ [.streamEnd]) []) (some value.node)
      (left [.streamEnd] []) := by
  have hnode : Runs (node defaultHandles true false maxLevels bound)
      (left (value.tokens ++ [.streamEnd]) []) value.node (left [.streamEnd] []) :=
    node_runs value true false bound [.streamEnd] h hdepth hbound
  have hcontents : Runs (contents bound) (left (value.tokens ++ [.streamEnd]) [])
      (some value.node) (left [.streamEnd] []) := by
    obtain ⟨token, later, htokens, hbegins⟩ := Json.tokens_eq_cons h
    rw [htokens] at hnode ⊢
    refine Runs.bind peek_runs ?_
    rcases hbegins with ⟨text, rfl⟩ | rfl | rfl
    · exact Runs.bind hnode (Runs.pure _ _)
    · exact Runs.bind hnode (Runs.pure _ _)
    · exact Runs.bind hnode (Runs.pure _ _)
  exact Runs.bind hcontents (Runs.bind (skipEnds_runs bound)
    (Runs.testTrue (isNext_runs _) (Runs.pure _ _)))

end Parser

/-- The only document that the tokens of a value make is its node. -/
theorem Document.ofTokens_tokens {value : Json} (h : value.Quoted)
    (hdepth : value.depth < Parser.maxLevels) :
    Document.ofTokens ⟨value.tokens ++ [.streamEnd], none⟩ = .ok (some value.node) := by
  have hbound : value.tokens.length ≤ 2 * (value.tokens ++ [Token.streamEnd]).length + 4 := by
    rw [List.length_append]
    omega
  have hdocument : Parser.document (2 * (value.tokens ++ [Token.streamEnd]).length + 4)
      ⟨⟨value.tokens ++ [.streamEnd], none⟩, []⟩ =
        .ok (some value.node, Parser.left [.streamEnd] []) :=
    Parser.document_runs h hdepth hbound
  rw [Document.ofTokens, hdocument]
  rfl

end Yaml
end ContractAdmission
