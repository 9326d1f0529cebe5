import ContractAdmission.Policy

/-!
# Registries of policies

A registry leads from the name of a policy to its declaration.  It is made from a list of
declarations, one after the other: a declaration stands in the place of an earlier one that
took the same name.
-/

namespace ContractAdmission

/-- Declarations of which no two take one name. -/
structure Registry where
  entries : List Declaration
  distinct : (entries.map (·.policyName)).Nodup := by decide

namespace Registry

/-- Put a declaration in the place of the one that takes its name, or else last. -/
def put (declaration : Declaration) : List Declaration → List Declaration
  | [] => [declaration]
  | first :: rest =>
      if first.policyName = declaration.policyName then declaration :: rest
      else first :: put declaration rest

/-- A declaration brings its name with it, unless the name is there. -/
theorem map_policyName_put (declaration : Declaration) (entries : List Declaration) :
    (put declaration entries).map (·.policyName) =
      if declaration.policyName ∈ entries.map (·.policyName) then
        entries.map (·.policyName)
      else entries.map (·.policyName) ++ [declaration.policyName] := by
  induction entries with
  | nil => rfl
  | cons first rest ih =>
      by_cases hsame : first.policyName = declaration.policyName
      · simp [put, hsame]
      · have hother : declaration.policyName ≠ first.policyName := fun h => hsame h.symm
        simp only [put, if_neg hsame, List.map_cons, ih, List.mem_cons, hother, false_or]
        split <;> rfl

theorem put_distinct {declaration : Declaration} {entries : List Declaration}
    (h : (entries.map (·.policyName)).Nodup) :
    ((put declaration entries).map (·.policyName)).Nodup := by
  rw [map_policyName_put]
  split
  · exact h
  · rename_i hnew
    refine List.nodup_append.2 ⟨h, List.pairwise_singleton _ _, ?_⟩
    rintro name hname - (_ | ⟨_, ⟨⟩⟩) rfl
    exact hnew hname

/-- The registry without declarations. -/
def empty : Registry := ⟨[], List.Pairwise.nil⟩

/-- A registry with one more declaration, or with another one of its name. -/
def register (registry : Registry) (declaration : Declaration) : Registry :=
  ⟨put declaration registry.entries, put_distinct registry.distinct⟩

/-- The registry that a list of declarations makes. -/
def ofList (declarations : List Declaration) : Registry :=
  declarations.foldl register empty

/-- The number of names that lead to a declaration. -/
def size (registry : Registry) : Nat := registry.entries.length

/-- The declaration to which a name leads. -/
def find? (registry : Registry) (policyName : String) : Option Declaration :=
  registry.entries.find? fun declaration => declaration.policyName = policyName

/-- A name leads to the declaration that took it last. -/
@[simp] theorem find?_register_self (registry : Registry) (declaration : Declaration) :
    (registry.register declaration).find? declaration.policyName = some declaration := by
  obtain ⟨entries, distinct⟩ := registry
  show (put declaration entries).find? _ = _
  clear distinct
  induction entries with
  | nil => simp [put]
  | cons first rest ih =>
      by_cases hsame : first.policyName = declaration.policyName
      · simp [put, hsame]
      · simpa [put, hsame] using ih

/-- A declaration does not change where other names lead. -/
theorem find?_register_of_ne {registry : Registry} {declaration : Declaration} {other : String}
    (h : declaration.policyName ≠ other) :
    (registry.register declaration).find? other = registry.find? other := by
  obtain ⟨entries, distinct⟩ := registry
  show (put declaration entries).find? _ = entries.find? _
  clear distinct
  induction entries with
  | nil => simp [put, h]
  | cons first rest ih =>
      by_cases hsame : first.policyName = declaration.policyName
      · have hfirst : first.policyName ≠ other := hsame ▸ h
        simp [put, hsame, h]
      · simp [put, hsame, List.find?_cons, ih]

/-- The names that lead to a declaration, in order of first use. -/
def names (registry : Registry) : List String := registry.entries.map (·.policyName)

theorem names_register (registry : Registry) (declaration : Declaration) :
    (registry.register declaration).names =
      if declaration.policyName ∈ registry.names then registry.names
      else registry.names ++ [declaration.policyName] :=
  map_policyName_put declaration registry.entries

end Registry
end ContractAdmission
