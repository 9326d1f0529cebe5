import ContractAdmission.Registry
import Mathlib.Data.List.Induction
import Mathlib.Data.List.Nodup
import Mathlib.Data.List.Perm.Subperm

/-!
# Clashes of policies

Declarations are refused when two of them take one name.  That is exactly when a registry made
from them would lose one, and what the report lists is a partition of the declarations that
clash.

* `Registry.find?_ofList` — a name leads to the last declaration that takes it.
* `Registry.names_ofList` — a registry has the names of its declarations, in order of first use.
* `Declaration.clashes_eq_map` — the clashes are the names that are taken more than once.
* `Declaration.flatMap_members_clashes_perm` — the clashes list each declaration that takes part
  in one once, and no other.
* `clash_check_exact` — the check, the registry and the report agree.
-/

namespace ContractAdmission

/-! ### Lists without repetitions -/

section FirstUse

variable {α β : Type} [DecidableEq α]

/-- Leaving items out does not change which of two others comes first. -/
theorem idxOf_filter_lt_iff {p : α → Bool} {first later : α} (hfirst : p first = true)
    (hlater : p later = true) (items : List α) :
    (items.filter p).idxOf first < (items.filter p).idxOf later ↔
      items.idxOf first < items.idxOf later := by
  induction items with
  | nil => rfl
  | cons item rest ih =>
      by_cases hitem : p item = true
      · rw [List.filter_cons_of_pos hitem]
        simp only [List.idxOf_cons]
        cases item == first <;> cases item == later <;> simp [ih]
      · have hne : ∀ other, p other = true → item ≠ other := by
          rintro other hother rfl
          exact hitem hother
        rw [List.filter_cons_of_neg hitem, List.idxOf_cons_ne rest (hne first hfirst),
          List.idxOf_cons_ne rest (hne later hlater), ih, Nat.succ_lt_succ_iff]

/-- Without repetitions the items of a list stand in the order in which they first occur. -/
theorem pairwise_idxOf_eraseDups (items : List α) :
    items.eraseDups.Pairwise fun first later => items.idxOf first < items.idxOf later := by
  match items with
  | [] => exact List.Pairwise.nil
  | item :: rest =>
      have hne : ∀ other ∈ (rest.filter fun next => !next == item).eraseDups, item ≠ other := by
        rintro other hother rfl
        simp at hother
      rw [List.eraseDups_cons]
      refine List.pairwise_cons.2 ⟨fun other hother => ?_, ?_⟩
      · rw [List.idxOf_cons_self, List.idxOf_cons_ne rest (hne other hother)]
        exact Nat.succ_pos _
      · -- The later items are those of a shorter list, from which the first one is left out.
        refine (pairwise_idxOf_eraseDups (rest.filter fun next => !next == item)).imp_of_mem ?_
        intro first later hfirst hlater hlt
        have hkept : ∀ other ∈ (rest.filter fun next => !next == item).eraseDups,
            (!other == item) = true := fun other hother =>
          (List.mem_filter.1 (List.mem_eraseDups.1 hother)).2
        rw [idxOf_filter_lt_iff (p := fun next => !next == item) (hkept first hfirst)
          (hkept later hlater)] at hlt
        rw [List.idxOf_cons_ne rest (hne first hfirst), List.idxOf_cons_ne rest (hne later hlater)]
        exact Nat.succ_lt_succ hlt
termination_by items.length
decreasing_by exact Nat.lt_succ_of_le (List.length_filter_le _ _)

theorem nodup_eraseDups (items : List α) : items.eraseDups.Nodup := by
  refine (pairwise_idxOf_eraseDups items).imp ?_
  intro first later hlt hsame
  rw [hsame] at hlt
  exact Nat.lt_irrefl _ hlt

/-- As many items are left without repetitions as there were exactly if there were none. -/
theorem length_eraseDups_eq_iff (items : List α) :
    items.eraseDups.length = items.length ↔ items.Nodup := by
  have hsame : ∀ item, item ∈ items.eraseDups ↔ item ∈ items := fun _ => List.mem_eraseDups
  constructor
  · intro hlength
    have hinside := List.subperm_of_subset (nodup_eraseDups items) fun item => (hsame item).1
    have hperm := hinside.perm_of_length_le (Nat.le_of_eq hlength.symm)
    exact hperm.nodup_iff.1 (nodup_eraseDups items)
  · intro hnodup
    exact ((List.perm_ext_iff_of_nodup (nodup_eraseDups items) hnodup).2 hsame).length_eq

/-- The groups of different keys have the items whose keys these are, each once. -/
theorem flatMap_filter_perm {keys : List α} (h : keys.Nodup) (key : β → α) (items : List β) :
    (keys.flatMap fun k => items.filter fun item => key item = k).Perm
      (items.filter fun item => key item ∈ keys) := by
  induction keys with
  | nil => simp
  | cons k rest ih =>
      obtain ⟨hk, hrest⟩ := List.nodup_cons.1 h
      have hsplit := List.filter_append_perm (fun item => decide (key item = k))
        (items.filter fun item => key item ∈ k :: rest)
      have hfirst : ((items.filter fun item => key item ∈ k :: rest).filter
          fun item => decide (key item = k)) = items.filter fun item => key item = k := by
        rw [List.filter_filter]
        exact List.filter_congr fun item _ => by by_cases hkey : key item = k <;> simp [hkey]
      have hlater : ((items.filter fun item => key item ∈ k :: rest).filter
          fun item => !decide (key item = k)) = items.filter fun item => key item ∈ rest := by
        rw [List.filter_filter]
        refine List.filter_congr fun item _ => ?_
        by_cases hkey : key item = k
        · simp [hkey, hk]
        · simp [hkey]
      rw [hfirst, hlater] at hsplit
      rw [List.flatMap_cons]
      exact ((ih hrest).append_left _).trans hsplit

end FirstUse

/-! ### What a registry keeps -/

namespace Registry

theorem ofList_concat (declarations : List Declaration) (declaration : Declaration) :
    ofList (declarations ++ [declaration]) = (ofList declarations).register declaration :=
  List.foldl_concat ..

/-- A name leads to the last declaration that takes it. -/
theorem find?_ofList (declarations : List Declaration) (policyName : String) :
    (ofList declarations).find? policyName =
      (Declaration.ofName declarations policyName).getLast? := by
  induction declarations using List.reverseRecOn with
  | nil => rfl
  | append_singleton declarations declaration ih =>
      rw [ofList_concat, Declaration.ofName, List.filter_append]
      by_cases hname : declaration.policyName = policyName
      · subst hname
        simp
      · rw [find?_register_of_ne hname, ih]
        simp [Declaration.ofName, hname]

/-- A registry has the names that its declarations take. -/
theorem names_ofList (declarations : List Declaration) :
    (ofList declarations).names = Declaration.names declarations := by
  induction declarations using List.reverseRecOn with
  | nil => rfl
  | append_singleton declarations declaration ih =>
      rw [ofList_concat, names_register, ih, Declaration.names, Declaration.names, List.map_append,
        List.eraseDups_append]
      have hthere : declaration.policyName ∈ (declarations.map (·.policyName)).eraseDups ↔
          declaration.policyName ∈ declarations.map (·.policyName) := List.mem_eraseDups
      by_cases hname : declaration.policyName ∈ declarations.map (·.policyName)
      · rw [if_pos (hthere.2 hname), List.map_singleton, List.removeAll,
          List.filter_cons_of_neg (by simpa using hname)]
        simp
      · rw [if_neg (mt hthere.1 hname), List.map_singleton, List.removeAll,
          List.filter_cons_of_pos (by simpa using hname)]
        simp [List.eraseDups_cons]

/-- A registry keeps as many declarations as it was made from exactly if no two take one
name. -/
theorem size_ofList_eq_length_iff (declarations : List Declaration) :
    (ofList declarations).size = declarations.length ↔
      (declarations.map (·.policyName)).Nodup := by
  have hsize : (ofList declarations).size = (ofList declarations).names.length :=
    (List.length_map _).symm
  rw [hsize, names_ofList, ← length_eraseDups_eq_iff, List.length_map]
  rfl

end Registry

/-! ### What clashes -/

namespace Declaration

variable (declarations : List Declaration)

theorem length_ofName (policyName : String) :
    (ofName declarations policyName).length =
      (declarations.map (·.policyName)).count policyName := by
  rw [ofName, ← List.countP_eq_length_filter, List.count_eq_countP, List.countP_map]
  exact List.countP_congr fun declaration _ => by simp

/-- The clashes are the names that are taken more than once, each with what takes it. -/
theorem clashes_eq_map :
    clashes declarations =
      ((names declarations).filter fun policyName =>
        1 < (declarations.map (·.policyName)).count policyName).map
          fun policyName => ⟨policyName, ofName declarations policyName⟩ := by
  unfold clashes
  rw [← List.filterMap_eq_map, ← List.filterMap_eq_filter, List.filterMap_filterMap]
  refine List.filterMap_congr fun policyName _ => ?_
  by_cases hmany : 1 < (declarations.map (·.policyName)).count policyName
  · simp [length_ofName, Option.guard, hmany]
  · simp only [length_ofName, Option.guard, hmany, if_false, decide_false]
    rfl

theorem map_policyName_clashes :
    (clashes declarations).map (·.policyName) = (names declarations).filter fun policyName =>
      1 < (declarations.map (·.policyName)).count policyName := by
  rw [clashes_eq_map, List.map_map]
  exact List.map_id _

theorem mem_map_policyName_clashes_iff {policyName : String} :
    policyName ∈ (clashes declarations).map (·.policyName) ↔
      1 < (declarations.map (·.policyName)).count policyName := by
  rw [map_policyName_clashes, List.mem_filter, decide_eq_true_eq]
  refine and_iff_right_of_imp fun hmany => List.mem_eraseDups.2 ?_
  exact List.count_pos_iff.1 (Nat.zero_lt_of_lt hmany)

theorem clashes_eq_nil_iff :
    clashes declarations = [] ↔ (declarations.map (·.policyName)).Nodup := by
  rw [← List.map_eq_nil_iff (f := (·.policyName)), List.nodup_iff_count_le_one,
    List.eq_nil_iff_forall_not_mem]
  simp only [mem_map_policyName_clashes_iff, Nat.not_lt]

/-- Clashes stand in the order in which their names are first taken. -/
theorem pairwise_idxOf_clashes :
    ((clashes declarations).map (·.policyName)).Pairwise fun first later =>
      (declarations.map (·.policyName)).idxOf first <
        (declarations.map (·.policyName)).idxOf later := by
  rw [map_policyName_clashes]
  exact (pairwise_idxOf_eraseDups _).filter _

theorem members_of_mem_clashes {clash : Clash} (h : clash ∈ clashes declarations) :
    clash.members = ofName declarations clash.policyName := by
  rw [clashes_eq_map] at h
  obtain ⟨policyName, -, rfl⟩ := List.mem_map.1 h
  rfl

/-- The clashes list each declaration that takes part in one once, and no other. -/
theorem flatMap_members_clashes_perm :
    ((clashes declarations).flatMap (·.members)).Perm
      (declarations.filter fun declaration =>
        1 < (declarations.map (·.policyName)).count declaration.policyName) := by
  have hnodup : ((clashes declarations).map (·.policyName)).Nodup := by
    rw [map_policyName_clashes]
    exact (nodup_eraseDups _).filter _
  have hgroups : (clashes declarations).flatMap (·.members) =
      ((clashes declarations).map (·.policyName)).flatMap (ofName declarations) := by
    rw [List.flatMap_map]
    exact List.flatMap_congr fun clash hclash => members_of_mem_clashes declarations hclash
  rw [hgroups]
  refine (flatMap_filter_perm hnodup (·.policyName) declarations).trans (.of_eq ?_)
  exact List.filter_congr fun declaration _ => by
    simp only [mem_map_policyName_clashes_iff]

/-- Declarations are refused with all of their clashes, if there are any. -/
theorem checkDistinct_eq :
    checkDistinct declarations =
      if clashes declarations = [] then .ok () else .error (clashes declarations) := by
  unfold checkDistinct
  cases clashes declarations with
  | nil => rfl
  | cons clash rest => rfl

theorem checkDistinct_eq_ok_iff :
    checkDistinct declarations = .ok () ↔ (declarations.map (·.policyName)).Nodup := by
  rw [checkDistinct_eq, ← clashes_eq_nil_iff]
  split <;> simp_all

variable {declarations}

/-- Where no two declarations take one name, each name leads to the one that takes it. -/
theorem find?_ofList_of_nodup (h : (declarations.map (·.policyName)).Nodup)
    {declaration : Declaration} (hmem : declaration ∈ declarations) :
    (Registry.ofList declarations).find? declaration.policyName = some declaration := by
  have htaken : declaration ∈ ofName declarations declaration.policyName :=
    List.mem_filter.2 ⟨hmem, by simp⟩
  have honce : (ofName declarations declaration.policyName).length ≤ 1 := by
    rw [length_ofName]
    exact List.nodup_iff_count_le_one.1 h _
  obtain ⟨only, honly⟩ := List.length_eq_one_iff.1
    (Nat.le_antisymm honce (List.length_pos_of_mem htaken))
  rw [honly, List.mem_singleton] at htaken
  rw [Registry.find?_ofList, honly, htaken]
  rfl

end Declaration

/-- **Declarations are refused exactly when a registry would lose one, and the report is on
all that clash.**

The check succeeds if and only if the registry that the declarations make has as many names as
there are declarations.  Then the name that a declaration takes leads to this declaration.
Otherwise the check fails, and its report has an entry for each name that is taken at least
twice, in the order in which the names are first taken.  An entry shows its name and lists the
declarations that take it, in their order, so that the entries together list each declaration
that takes part in a clash once, and no other. -/
theorem clash_check_exact (declarations : List Declaration) :
    let registry := Registry.ofList declarations
    let taken := declarations.map (·.policyName)
    (Declaration.checkDistinct declarations = .ok () ↔
      registry.size = declarations.length) ∧
    (Declaration.checkDistinct declarations = .ok () → ∀ declaration ∈ declarations,
      registry.find? declaration.policyName = some declaration) ∧
    (registry.size ≠ declarations.length → ∃ found,
      Declaration.checkDistinct declarations = .error found ∧
      Clash.report found =
        "The POLICY_CATALOG cannot be constructed since some policies have duplicated " ++
          "`POLICY_TYPE`s. The following is the list of duplicates and their classes:\n" ++
          "\n".intercalate (found.map fun clash =>
            "* POLICY_TYPE: '" ++ clash.policyName ++
              "' is duplicated for these POLICY_CLASSES: [" ++
              ", ".intercalate (clash.members.map fun declaration =>
                "<class '" ++ declaration.home ++ "." ++ declaration.implementer ++ "'>") ++
              "]") ∧
      (∀ policyName, policyName ∈ found.map (·.policyName) ↔ 2 ≤ taken.count policyName) ∧
      ((found.map (·.policyName)).Pairwise fun first later =>
        taken.idxOf first < taken.idxOf later) ∧
      (∀ clash ∈ found, clash.members =
        declarations.filter fun declaration => declaration.policyName = clash.policyName) ∧
      (found.flatMap (·.members)).Perm
        (declarations.filter fun declaration => 2 ≤ taken.count declaration.policyName)) := by
  intro registry taken
  have hkeeps : registry.size = declarations.length ↔ taken.Nodup :=
    Registry.size_ofList_eq_length_iff declarations
  have hchecks : Declaration.checkDistinct declarations = .ok () ↔ taken.Nodup :=
    Declaration.checkDistinct_eq_ok_iff declarations
  refine ⟨hchecks.trans hkeeps.symm, ?_, ?_⟩
  · intro hok declaration hmem
    exact Declaration.find?_ofList_of_nodup (hchecks.1 hok) hmem
  · intro hlost
    have hclash : Declaration.clashes declarations ≠ [] := fun hnone =>
      hlost (hkeeps.2 ((Declaration.clashes_eq_nil_iff declarations).1 hnone))
    refine ⟨Declaration.clashes declarations, ?_, ?_, ?_, ?_, ?_, ?_⟩
    · rw [Declaration.checkDistinct_eq, if_neg hclash]
    · rfl
    · exact fun policyName => Declaration.mem_map_policyName_clashes_iff declarations
    · exact Declaration.pairwise_idxOf_clashes declarations
    · exact fun clash => Declaration.members_of_mem_clashes declarations
    · exact Declaration.flatMap_members_clashes_perm declarations

/-- Declarations that take two names, the first of them twice. -/
def shadowingDeclarations : List Declaration :=
  [⟨"none", "custom", "First"⟩, ⟨"staking_only", "custom", "Other"⟩, ⟨"none", "custom", "Second"⟩]

/-- The registry would lose the first of three declarations, and the report is on the first and
the third; without the third nothing is lost. -/
theorem clash_check_exact_shadowing :
    (∃ found, Declaration.checkDistinct shadowingDeclarations = .error found ∧
      found.map (·.policyName) = ["none"] ∧
      found.flatMap (·.members) =
        [⟨"none", "custom", "First"⟩, ⟨"none", "custom", "Second"⟩] ∧
      Clash.report found =
        "The POLICY_CATALOG cannot be constructed since some policies have duplicated " ++
          "`POLICY_TYPE`s. The following is the list of duplicates and their classes:\n" ++
          "* POLICY_TYPE: 'none' is duplicated for these POLICY_CLASSES: " ++
          "[<class 'custom.First'>, <class 'custom.Second'>]") ∧
    (Registry.ofList shadowingDeclarations).find? "none" = some ⟨"none", "custom", "Second"⟩ ∧
    (Registry.ofList (shadowingDeclarations.take 2)).find? "none" =
      some ⟨"none", "custom", "First"⟩ := by
  refine ⟨?_, by decide +kernel, ?_⟩
  · have hlost : (Registry.ofList shadowingDeclarations).size ≠ shadowingDeclarations.length := by
      decide +kernel
    obtain ⟨-, -, hreport⟩ := clash_check_exact shadowingDeclarations
    obtain ⟨found, hfound, htext, -⟩ := hreport hlost
    have hclashes : Declaration.checkDistinct shadowingDeclarations =
        .error [⟨"none", [⟨"none", "custom", "First"⟩, ⟨"none", "custom", "Second"⟩]⟩] := by
      decide +kernel
    obtain rfl := Except.error.inj (hfound.symm.trans hclashes)
    refine ⟨_, hfound, rfl, rfl, ?_⟩
    rw [htext]
    decide +kernel
  · have hok : Declaration.checkDistinct (shadowingDeclarations.take 2) = .ok () := by
      decide +kernel
    obtain ⟨-, hfind, -⟩ := clash_check_exact (shadowingDeclarations.take 2)
    exact hfind hok ⟨"none", "custom", "First"⟩ (by decide)

end ContractAdmission
