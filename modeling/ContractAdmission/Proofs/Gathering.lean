import Mathlib.Data.List.Basic

/-!
# Gathering values that may be missing

A map over a list that may fail on an item fails as a whole exactly when it fails on
one, and otherwise gives what it gives for each.  Where failures are left out instead,
it gives what it gives for the others.
-/

namespace ContractAdmission

variable {α β : Type} {f : α → Option β} {values : List α}

/-- A map fails exactly when it fails on an item. -/
theorem mapM_eq_none_iff : values.mapM f = none ↔ ∃ value ∈ values, f value = none := by
  induction values with
  | nil => simp
  | cons first rest ih =>
      rw [List.mapM_cons]
      cases hfirst : f first with
      | none => simp [hfirst]
      | some result =>
          have hrest : rest.mapM f = none ↔ ∃ value ∈ first :: rest, f value = none := by
            rw [ih]
            simp [hfirst]
          rw [← hrest]
          cases rest.mapM f with
          | none => simp
          | some results => simp

/-- A map that gives something for every item gives it for the list. -/
theorem mapM_eq_some_map {g : α → β} (h : ∀ value ∈ values, f value = some (g value)) :
    values.mapM f = some (values.map g) := by
  induction values with
  | nil => rfl
  | cons first rest ih =>
      have hrest : rest.mapM f = some (rest.map g) := ih fun value hvalue =>
        h value (List.mem_cons_of_mem first hvalue)
      simp [List.mapM_cons, h first (by simp), hrest]

/-- What a map gives for a list is what it gives for each item, in order. -/
theorem map_some_of_mapM {results : List β} (h : values.mapM f = some results) :
    results.map some = values.map f := by
  induction values generalizing results with
  | nil =>
      cases h
      rfl
  | cons first rest ih =>
      rw [List.mapM_cons] at h
      obtain ⟨result, hresult, h⟩ := Option.bind_eq_some_iff.1 h
      obtain ⟨others, hothers, h⟩ := Option.bind_eq_some_iff.1 h
      cases h
      rw [List.map_cons, List.map_cons, hresult, ih hothers]

/-- Whatever a map gives it gives for an item. -/
theorem exists_of_mem_of_mapM {results : List β} (h : values.mapM f = some results) {result : β}
    (hresult : result ∈ results) : ∃ value ∈ values, f value = some result := by
  have hmem : some result ∈ values.map f := by
    rw [← map_some_of_mapM h]
    exact List.mem_map_of_mem hresult
  exact List.mem_map.1 hmem

/-- What is the same of each item and of what a map gives for it is the same of the
lists. -/
theorem map_eq_map_of_mapM {γ : Type} {results : List β} {g : β → γ} {g' : α → γ}
    (h : values.mapM f = some results)
    (hsame : ∀ value result, f value = some result → g result = g' value) :
    results.map g = values.map g' := by
  have hall := map_some_of_mapM h
  clear h
  induction results generalizing values with
  | nil => rw [List.map_eq_nil_iff.1 hall.symm, List.map_nil, List.map_nil]
  | cons first rest ih =>
      obtain ⟨value, others, rfl, hfirst, hrest⟩ := List.map_eq_cons_iff.1 hall.symm
      rw [List.map_cons, List.map_cons, hsame value first hfirst, ih hrest.symm]

/-- A map that keeps every item keeps the list. -/
theorem mapM_eq_some_self {f : α → Option α} (h : ∀ value ∈ values, f value = some value) :
    values.mapM f = some values := by
  rw [mapM_eq_some_map (g := id) h, List.map_id]

/-- If the items that give something all give the same, they give it as often as there
are such items. -/
theorem filterMap_eq_replicate {p : α → Prop} [DecidablePred p] {result : β}
    (h : ∀ value ∈ values, f value = if p value then some result else none) :
    values.filterMap f = List.replicate (values.filter (p ·)).length result := by
  induction values with
  | nil => rfl
  | cons first rest ih =>
      have hrest := ih fun value hvalue => h value (List.mem_cons_of_mem first hvalue)
      have hfirst := h first (by simp)
      by_cases hp : p first
      · rw [if_pos hp] at hfirst
        rw [List.filterMap_cons, hfirst, hrest, List.filter_cons_of_pos (by simpa using hp)]
        rfl
      · rw [if_neg hp] at hfirst
        rw [List.filterMap_cons, hfirst, hrest, List.filter_cons_of_neg (by simpa using hp)]

end ContractAdmission
