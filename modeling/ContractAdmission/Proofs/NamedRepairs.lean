import ContractAdmission.Proofs.FirstDefect

/-!
# The repairs that reasons name

Three of the checks compare names with names, and their reasons list those that are missing.
The list can be read back from the text: a quoted one as long as no name has a quote in it, one
without quotes as long as no name has a comma in it.  What is read are the names that are
missing, each of them has to be added before the check passes, and nothing else has to.

* `Report.quotedNames?` and `Report.listedNames?` — the two ways to read the names.
* `Report.quotedNames?_quoteNames`, `Report.listedNames?_intercalate` — they undo the printing.
* `Check.forall_mem_append_iff` — what has to be added to a list of names.
* `reasons_name_least_repair` — the three checks.
-/

namespace ContractAdmission

/-! ### Reading names -/

namespace Report

/-- Quoted names, read from inside the first one.  Between two of them stand a comma and a
blank; the quote before a full stop is the last. -/
def namesFromInside : List Char → Option (List (List Char))
  | [] => none
  | '"' :: '.' :: _ => some [[]]
  | '"' :: ',' :: ' ' :: '"' :: rest => (namesFromInside rest).map ([] :: ·)
  | '"' :: _ => none
  | c :: rest => (namesFromInside rest).map (·.modifyHead (c :: ·))

/-- The quoted names that follow a label at the beginning of a text. -/
def quotedNames? (label text : String) : Option (List String) :=
  match text.toList.dropPrefix? label.toList with
  | some ('"' :: rest) => (namesFromInside rest).map (·.map String.ofList)
  | _ => none

/-- The pieces of a text between its separators, each of which is a comma and a blank. -/
def pieces : List Char → List (List Char)
  | [] => [[]]
  | ',' :: ' ' :: rest => [] :: pieces rest
  | c :: rest => (pieces rest).modifyHead (c :: ·)

/-- The pieces of what follows a label at the beginning of a text. -/
def listedNames? (label text : String) : Option (List String) :=
  (text.toList.dropPrefix? label.toList).map fun rest => (pieces rest).map String.ofList

/-- A name without a quote is read as it stands. -/
theorem namesFromInside_append {name : List Char} (h : '"' ∉ name) (rest : List Char) :
    namesFromInside (name ++ rest) =
      (namesFromInside rest).map (·.modifyHead (name ++ ·)) := by
  induction name with
  | nil =>
      rw [List.nil_append]
      cases namesFromInside rest with
      | none => rfl
      | some names => cases names <;> rfl
  | cons c name ih =>
      obtain ⟨hc, hname⟩ := not_or.1 (List.mem_cons.not.1 h)
      -- Only a quote is looked at together with what follows it.
      have hstep : namesFromInside (c :: (name ++ rest)) =
          (namesFromInside (name ++ rest)).map (·.modifyHead (c :: ·)) := by
        rw [namesFromInside.eq_def]
        split <;> simp_all
      rw [List.cons_append, hstep, ih hname, Option.map_map]
      congr 1
      funext names
      cases names <;> rfl

/-- The induction is on the names after the first, whose opening quote is not read. -/
theorem namesFromInside_quoteNames {name : String} {names : List String}
    (h : ∀ other ∈ name :: names, '"' ∉ other.toList) (rest : List Char) :
    ∃ tail, (Defect.quoteNames (name :: names)).toList ++ '.' :: rest = '"' :: tail ∧
      namesFromInside tail = some ((name :: names).map String.toList) := by
  obtain ⟨hname, hnames⟩ := List.forall_mem_cons.1 h
  induction names generalizing name with
  | nil =>
      refine ⟨name.toList ++ '"' :: '.' :: rest, by simp [Defect.quoteNames], ?_⟩
      rw [namesFromInside_append hname, namesFromInside]
      simp
  | cons next names ih =>
      obtain ⟨tail, htext, hread⟩ := ih hnames (hnames next (by simp))
        (List.forall_mem_cons.1 hnames).2
      refine ⟨name.toList ++ '"' :: ',' :: ' ' :: '"' :: tail, ?_, ?_⟩
      · rw [Defect.quoteNames] at htext ⊢
        simp only [List.map_cons, String.intercalate_cons_cons] at htext ⊢
        simp [← htext]
      · rw [namesFromInside_append hname, namesFromInside, hread]
        simp

/-- Reading quoted names gives the names that were quoted. -/
theorem quotedNames?_quoteNames {names : List String} (hne : names ≠ [])
    (h : ∀ name ∈ names, '"' ∉ name.toList) (label rest : String) :
    quotedNames? label (label ++ (Defect.quoteNames names ++ ("." ++ rest))) = some names := by
  obtain ⟨name, others, rfl⟩ := List.exists_cons_of_ne_nil hne
  obtain ⟨inside, htext, hread⟩ := namesFromInside_quoteNames h rest.toList
  have hlabel : (label ++ (Defect.quoteNames (name :: others) ++ ("." ++ rest))).toList.dropPrefix?
      label.toList = some ('"' :: inside) := by
    simp only [String.toList_append]
    exact htext ▸ List.dropPrefix?_append_of_beq _ (beq_self_eq_true _)
  rw [quotedNames?, hlabel]
  simp [hread]

/-- A name without a comma is part of one piece. -/
theorem pieces_append {name : List Char} (h : ',' ∉ name) (rest : List Char) :
    pieces (name ++ rest) = (pieces rest).modifyHead (name ++ ·) := by
  induction name with
  | nil =>
      rw [List.nil_append]
      cases pieces rest <;> rfl
  | cons c name ih =>
      obtain ⟨hc, hname⟩ := not_or.1 (List.mem_cons.not.1 h)
      have hstep : pieces (c :: (name ++ rest)) =
          (pieces (name ++ rest)).modifyHead (c :: ·) := by
        rw [pieces.eq_def]
        split <;> simp_all
      rw [List.cons_append, hstep, ih hname]
      cases pieces rest <;> rfl

theorem pieces_intercalate {names : List String} (hne : names ≠ [])
    (h : ∀ name ∈ names, ',' ∉ name.toList) :
    pieces (", ".intercalate names).toList = names.map String.toList := by
  induction names with
  | nil => exact absurd rfl hne
  | cons name names ih =>
      obtain ⟨hname, hnames⟩ := List.forall_mem_cons.1 h
      cases names with
      | nil =>
          have hpieces := pieces_append hname []
          simpa [pieces] using hpieces
      | cons next names =>
          have hseparated : (", ".intercalate (name :: next :: names)).toList =
              name.toList ++ ',' :: ' ' :: (", ".intercalate (next :: names)).toList := by
            simp [String.intercalate_cons_cons]
          rw [hseparated, pieces_append hname, pieces, ih (List.cons_ne_nil _ _) hnames]
          simp

/-- Reading listed names gives the names that were listed. -/
theorem listedNames?_intercalate {names : List String} (hne : names ≠ [])
    (h : ∀ name ∈ names, ',' ∉ name.toList) (label : String) :
    listedNames? label (label ++ ", ".intercalate names) = some names := by
  have hlabel : (label ++ ", ".intercalate names).toList.dropPrefix? label.toList =
      some (", ".intercalate names).toList := by
    rw [String.toList_append]
    exact List.dropPrefix?_append_of_beq _ (beq_self_eq_true _)
  rw [listedNames?, hlabel, Option.map_some, pieces_intercalate hne h]
  simp

example : listedNames? "missing: " ("missing: " ++ ", ".intercalate ["a", "b, c"]) =
    some ["a", "b", "c"] := by
  decide +kernel

end Report

/-! ### What clears a check -/

namespace Check

variable {iface : Interface} {host : Host} {policy : Policy} {granted : CapabilitySet}
  {defect : Defect}

/-- A list has every name that is wanted, once it is continued, when it is continued by those
that were missing. -/
theorem forall_mem_append_iff {required present more : List String} :
    (∀ name ∈ required, name ∈ present ++ more) ↔
      ∀ name ∈ missing required present, name ∈ more := by
  constructor
  · intro h name hmissing
    obtain ⟨hrequired, hlacking⟩ := List.mem_filter.1 hmissing
    exact (List.mem_append.1 (h name hrequired)).resolve_left (by simpa using hlacking)
  · intro h name hrequired
    by_cases hpresent : name ∈ present
    · exact List.mem_append_left _ hpresent
    · have hmissing : name ∈ missing required present :=
        List.mem_filter.2 ⟨hrequired, by simpa using hpresent⟩
      exact List.mem_append_right _ (h name hmissing)

theorem forall_mem_union_iff {required more : CapabilitySet} :
    (∀ name ∈ required, name ∈ granted.union more) ↔
      ∀ name ∈ required.diff granted, name ∈ more := by
  constructor
  · intro h name hmissing
    obtain ⟨hrequired, hlacking⟩ := CapabilitySet.mem_diff.1 hmissing
    exact (CapabilitySet.mem_union.1 (h name hrequired)).resolve_left hlacking
  · intro h name hrequired
    rw [CapabilitySet.mem_union]
    by_cases hgranted : name ∈ granted
    · exact Or.inl hgranted
    · exact Or.inr (h name (CapabilitySet.mem_diff.2 ⟨hrequired, hgranted⟩))

theorem exports_append_eq_none_iff (exports : List Export) (imports : List Import) :
    Check.exports ⟨iface.exports ++ exports, imports⟩ host = none ↔
      ∀ name ∈ missing host.requiredExports iface.exportNames, name ∈ exports.map (·.name) := by
  rw [exports_eq_none_iff, Interface.exportNames, List.map_append]
  exact forall_mem_append_iff

theorem imports_append_eq_none_iff (exports : List Export) (imports : List Import) :
    Check.imports ⟨exports, iface.imports ++ imports⟩ host = none ↔
      ∀ name ∈ missing host.requiredImports iface.qualifiedNames,
        name ∈ imports.map (·.qualifiedName) := by
  rw [imports_eq_none_iff, Interface.qualifiedNames, List.map_append]
  exact forall_mem_append_iff

theorem capabilities_union_eq_none_iff {more : CapabilitySet} :
    capabilities iface (granted.union more) policy = none ↔
      ∀ name ∈ (policy.required iface).diff granted, name ∈ more := by
  rw [capabilities_eq_none_iff]
  exact forall_mem_union_iff

/-- A check of exports that fails reports the exports that are missing, of which there are
some. -/
theorem missing_of_exports (h : Check.exports iface host = some defect) :
    missing host.requiredExports iface.exportNames ≠ [] ∧
      defect = .missingExports (missing host.requiredExports iface.exportNames)
        host.requiredExports := by
  unfold Check.exports at h
  split at h
  · cases h
  · rename_i names hnames
    exact ⟨hnames, (Option.some.inj h).symm⟩

theorem missing_of_imports (h : Check.imports iface host = some defect) :
    missing host.requiredImports iface.qualifiedNames ≠ [] ∧
      defect = .missingImports (missing host.requiredImports iface.qualifiedNames)
        host.requiredImports := by
  unfold Check.imports at h
  split at h
  · cases h
  · rename_i names hnames
    exact ⟨hnames, (Option.some.inj h).symm⟩

theorem missing_of_capabilities (h : capabilities iface granted policy = some defect) :
    ((policy.required iface).diff granted).toList ≠ [] ∧
      defect = .missingCapabilities ((policy.required iface).diff granted).toList := by
  unfold capabilities at h
  split at h
  · cases h
  · rename_i names hnames
    exact ⟨hnames, (Option.some.inj h).symm⟩

end Check

/-- The names that are missing are read back from a reason that goes on, after a full stop, with
the names that are required. -/
theorem Report.quotedNames?_missing {missing : List String} (hne : missing ≠ [])
    (h : ∀ name ∈ missing, '"' ∉ name.toList) (label words : String) (required : List String) :
    quotedNames? label (label ++ Defect.quoteNames missing ++ ("." ++ words) ++
      Defect.quoteNames required ++ ".") = some missing := by
  have hread := quotedNames?_quoteNames hne h label (words ++ (Defect.quoteNames required ++ "."))
  simpa only [String.append_assoc] using hread

/-- **A reason names the least repair.**

When the check of exports or that of imports fails, and no name in the table of the host has a
quote in it, the quoted names at the beginning of the reason are those of the table that are
missing, in the order of the table.  When the check of capabilities fails, and no capability
that is required has a comma in it, the names in the reason are those that are required and not
granted, in increasing order.  Whatever is added, the check passes exactly when every name that
was read is among it. -/
theorem reasons_name_least_repair (iface : Interface) :
    (∀ (host : Host) (stage : Stage) (reason : String),
      (∀ name ∈ host.requiredExports, '"' ∉ name.toList) →
      Verdict.ofDefect? (Check.exports iface host) = .invalid stage reason →
      ∃ names, Report.quotedNames? "missing required export: " reason = some names ∧
        names = host.requiredExports.filter (· ∉ iface.exportNames) ∧
        ∀ exports : List Export,
          Verdict.ofDefect?
              (Check.exports { iface with exports := iface.exports ++ exports } host) = .valid ↔
            ∀ name ∈ names, name ∈ exports.map (·.name)) ∧
    (∀ (host : Host) (stage : Stage) (reason : String),
      (∀ name ∈ host.requiredImports, '"' ∉ name.toList) →
      Verdict.ofDefect? (Check.imports iface host) = .invalid stage reason →
      ∃ names, Report.quotedNames? "missing required import: " reason = some names ∧
        names = host.requiredImports.filter (· ∉ iface.qualifiedNames) ∧
        ∀ imports : List Import,
          Verdict.ofDefect?
              (Check.imports { iface with imports := iface.imports ++ imports } host) = .valid ↔
            ∀ name ∈ names, name ∈ imports.map (·.qualifiedName)) ∧
    (∀ (policy : Policy) (granted : CapabilitySet) (stage : Stage) (reason : String),
      (∀ name ∈ policy.required iface, ',' ∉ name.toList) →
      Verdict.ofDefect? (Check.capabilities iface granted policy) = .invalid stage reason →
      ∃ names, Report.listedNames? "missing capability: " reason = some names ∧
        names.Pairwise (· < ·) ∧
        (∀ name, name ∈ names ↔ name ∈ policy.required iface ∧ name ∉ granted) ∧
        ∀ more : CapabilitySet,
          Verdict.ofDefect? (Check.capabilities iface (granted.union more) policy) = .valid ↔
            ∀ name ∈ names, name ∈ more) := by
  refine ⟨?_, ?_, ?_⟩
  · intro host stage reason hquotes hinvalid
    obtain ⟨defect, hfound, -, rfl⟩ := Verdict.ofDefect?_eq_invalid_iff.1 hinvalid
    obtain ⟨hne, rfl⟩ := Check.missing_of_exports hfound
    refine ⟨Check.missing host.requiredExports iface.exportNames, ?_, rfl, fun exports => ?_⟩
    · exact Report.quotedNames?_missing hne
        (fun name hname => hquotes name (List.mem_of_mem_filter hname))
        "missing required export: " " Exports required by VM: " _
    · rw [Verdict.ofDefect?_eq_valid_iff]
      exact Check.exports_append_eq_none_iff exports iface.imports
  · intro host stage reason hquotes hinvalid
    obtain ⟨defect, hfound, -, rfl⟩ := Verdict.ofDefect?_eq_invalid_iff.1 hinvalid
    obtain ⟨hne, rfl⟩ := Check.missing_of_imports hfound
    refine ⟨Check.missing host.requiredImports iface.qualifiedNames, ?_, rfl, fun imports => ?_⟩
    · exact Report.quotedNames?_missing hne
        (fun name hname => hquotes name (List.mem_of_mem_filter hname))
        "missing required import: " " Imports required by VM: " _
    · rw [Verdict.ofDefect?_eq_valid_iff]
      exact Check.imports_append_eq_none_iff iface.exports imports
  · intro policy granted stage reason hcommas hinvalid
    obtain ⟨defect, hfound, -, rfl⟩ := Verdict.ofDefect?_eq_invalid_iff.1 hinvalid
    obtain ⟨hne, rfl⟩ := Check.missing_of_capabilities hfound
    have hplain : ∀ name ∈ (policy.required iface).diff granted, ',' ∉ name.toList :=
      fun name hname => hcommas name (CapabilitySet.mem_diff.1 hname).1
    refine ⟨((policy.required iface).diff granted).toList,
      Report.listedNames?_intercalate hne hplain _, CapabilitySet.increasing _,
      fun name => CapabilitySet.mem_diff, fun more => ?_⟩
    rw [Verdict.ofDefect?_eq_valid_iff]
    exact Check.capabilities_union_eq_none_iff

/-- A contract that offers nothing but its demand for two capabilities. -/
def demandingInterface : Interface :=
  ⟨[⟨"requires_staking", "function"⟩, ⟨"requires_iterator", "function"⟩], []⟩

/-- It lacks the whole table of exports, and with those it passes.  Of what it demands one name
is not enough; the names come in increasing order, not in that of the exports. -/
theorem reasons_name_least_repair_demanding :
    (∃ stage reason,
      Verdict.ofDefect? (Check.exports demandingInterface .cosmwasm1) = .invalid stage reason ∧
        Report.quotedNames? "missing required export: " reason =
          some Host.cosmwasm1.requiredExports) ∧
      (∃ stage reason,
        Verdict.ofDefect? (Check.imports demandingInterface .cosmwasm1) = .invalid stage reason ∧
          Report.quotedNames? "missing required import: " reason =
            some Host.cosmwasm1.requiredImports) ∧
      (∃ stage reason,
        Verdict.ofDefect? (Check.capabilities demandingInterface .empty .markerExports) =
            .invalid stage reason ∧
          Report.listedNames? "missing capability: " reason = some ["iterator", "staking"]) ∧
      Verdict.ofDefect? (Check.capabilities demandingInterface
        (CapabilitySet.empty.union (.ofList ["iterator"])) .markerExports) ≠ .valid := by
  obtain ⟨hexports, himports, hcapabilities⟩ := reasons_name_least_repair demandingInterface
  refine ⟨?_, ?_, ?_⟩
  · have hnone : Host.cosmwasm1.requiredExports.filter (· ∉ demandingInterface.exportNames) =
        Host.cosmwasm1.requiredExports := by decide
    obtain ⟨names, hread, hnames, -⟩ := hexports .cosmwasm1 _ _ (by decide) rfl
    rw [hnames, hnone] at hread
    exact ⟨_, _, rfl, hread⟩
  · have hnone : Host.cosmwasm1.requiredImports.filter (· ∉ demandingInterface.qualifiedNames) =
        Host.cosmwasm1.requiredImports := by decide
    obtain ⟨names, hread, hnames, -⟩ := himports .cosmwasm1 _ _ (by decide) rfl
    rw [hnames, hnone] at hread
    exact ⟨_, _, rfl, hread⟩
  · have hcommas : ∀ name ∈ Policy.markerExports.required demandingInterface,
        ',' ∉ name.toList := by
      simp only [← CapabilitySet.mem_toList]
      decide
    have hinvalid : Verdict.ofDefect? (Check.capabilities demandingInterface .empty
        .markerExports) = .invalid .capabilities "missing capability: iterator, staking" := by
      decide +kernel
    obtain ⟨names, hread, -, -, hclears⟩ :=
      hcapabilities .markerExports .empty _ _ hcommas hinvalid
    have hnames : Report.listedNames? "missing capability: "
        "missing capability: iterator, staking" = some ["iterator", "staking"] := by
      decide +kernel
    refine ⟨⟨_, _, hinvalid, hnames⟩, fun hvalid => ?_⟩
    obtain rfl : names = ["iterator", "staking"] := Option.some.inj (hread.symm.trans hnames)
    exact absurd ((hclears _).1 hvalid "staking" (by decide)) (by decide)

end ContractAdmission
