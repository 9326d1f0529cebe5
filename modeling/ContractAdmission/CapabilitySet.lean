import ContractAdmission.Text.Blank
/-!
# Sets of capabilities

A capability set is a strictly increasing list of names, so that two sets with
the same members are the same value and the order in which a set is printed is
the order in which it is stored.  The order of names is the order of their code
points.

Sets are read from comma separated text.  Blank characters around a name are
dropped, and so is a name that has nothing else.
-/

namespace ContractAdmission

/-- A finite set of capability names, in increasing order. -/
structure CapabilitySet where
  toList : List String
  increasing : toList.Pairwise (· < ·) := by decide

namespace CapabilitySet

/-- Put a name in its place in an increasing list. -/
def insertName (name : String) : List String → List String
  | [] => [name]
  | head :: rest =>
      if name < head then name :: head :: rest
      else if head < name then head :: insertName name rest
      else head :: rest

theorem mem_insertName {name other : String} {names : List String} :
    other ∈ insertName name names ↔ other = name ∨ other ∈ names := by
  induction names with
  | nil => simp [insertName]
  | cons head rest ih =>
      unfold insertName
      split
      · simp
      · rename_i hlt
        split
        · simp only [List.mem_cons, ih]
          constructor
          · rintro (h | h | h) <;> simp [h]
          · rintro (h | h | h) <;> simp [h]
        · rename_i hgt
          have heq : name = head :=
            String.le_antisymm (String.not_lt.1 hgt) (String.not_lt.1 hlt)
          subst heq
          simp

theorem insertName_pairwise {name : String} {names : List String}
    (h : names.Pairwise (· < ·)) : (insertName name names).Pairwise (· < ·) := by
  induction names with
  | nil => simp [insertName]
  | cons head rest ih =>
      obtain ⟨hhead, hrest⟩ := List.pairwise_cons.1 h
      unfold insertName
      split
      · rename_i hlt
        refine List.pairwise_cons.2 ⟨?_, h⟩
        intro other hother
        rcases List.mem_cons.1 hother with rfl | hmem
        · exact hlt
        · exact String.lt_trans hlt (hhead other hmem)
      · split
        · rename_i hgt
          refine List.pairwise_cons.2 ⟨?_, ih hrest⟩
          intro other hother
          rcases mem_insertName.1 hother with rfl | hmem
          · exact hgt
          · exact hhead other hmem
        · exact h

/-- The set without members. -/
def empty : CapabilitySet := ⟨[], List.Pairwise.nil⟩

/-- The set with one more member. -/
def insert (name : String) (set : CapabilitySet) : CapabilitySet :=
  ⟨insertName name set.toList, insertName_pairwise set.increasing⟩

/-- The set of the names in a list. -/
def ofList (names : List String) : CapabilitySet :=
  names.foldr insert empty

instance : Membership String CapabilitySet := ⟨fun set name => name ∈ set.toList⟩

instance (name : String) (set : CapabilitySet) : Decidable (name ∈ set) :=
  inferInstanceAs (Decidable (name ∈ set.toList))

/-- The members of one set that another lacks. -/
def diff (required available : CapabilitySet) : CapabilitySet :=
  ⟨required.toList.filter (fun name => name ∉ available), required.increasing.filter _⟩

/-- The members of either set. -/
def union (first second : CapabilitySet) : CapabilitySet :=
  first.toList.foldr insert second

@[simp] theorem mem_toList {name : String} {set : CapabilitySet} :
    name ∈ set.toList ↔ name ∈ set := Iff.rfl

@[simp] theorem not_mem_empty (name : String) : name ∉ empty :=
  List.not_mem_nil

@[simp] theorem mem_insert {name other : String} {set : CapabilitySet} :
    other ∈ insert name set ↔ other = name ∨ other ∈ set :=
  mem_insertName

@[simp] theorem mem_ofList {name : String} {names : List String} :
    name ∈ ofList names ↔ name ∈ names := by
  induction names with
  | nil => exact Iff.rfl
  | cons head rest ih => simp [ofList, ← ih]

@[simp] theorem mem_diff {name : String} {required available : CapabilitySet} :
    name ∈ required.diff available ↔ name ∈ required ∧ name ∉ available := by
  simp only [diff, ← mem_toList, List.mem_filter, decide_eq_true_eq]

@[simp] theorem mem_union {name : String} {first second : CapabilitySet} :
    name ∈ first.union second ↔ name ∈ first ∨ name ∈ second := by
  rcases first with ⟨names, increasing⟩
  show name ∈ names.foldr insert second ↔ name ∈ names ∨ name ∈ second
  clear increasing
  induction names with
  | nil => simp
  | cons head rest ih => simp [ih, or_assoc]

/-- The capability names in one comma separated text: its segments without
surrounding blanks, less the empty ones. -/
def namesIn (text : String) : List String :=
  ((text.toList.splitOn ',').map fun segment =>
    String.ofList (Text.stripChars segment)).filter (· ≠ "")

/-- The set of the names in a list of comma separated texts. -/
def parse (texts : List String) : CapabilitySet :=
  ofList (texts.flatMap namesIn)

theorem mem_parse {name : String} {texts : List String} :
    name ∈ parse texts ↔ ∃ text ∈ texts, name ∈ namesIn text := by
  simp [parse, List.mem_flatMap]

end CapabilitySet
end ContractAdmission
