import ContractAdmission.Proofs.Defaults
import ContractAdmission.Proofs.KnownNames

/-!
# What is wrong with settings

Settings are validated as a whole.  If each field is set to something valid, by the settings or
else by the environment, and no other key is set, then they make the configuration that holds
exactly these values.  Otherwise there is a complaint about everything that is wrong, each at
its own place, and the complaints come in the order of the fields, of the items of a list, and
then of the other keys.

* `Config.Sets` — what a field is set to, where no key is set twice.
* `Config.MadeFrom` — the configuration that settings make.
* `Config.Wrong` — the complaints that settings give rise to, one sort at a time.
* `Config.Precedes` — the order of the places that complaints are about.
* `validation_exact` — validation makes this configuration, or gives these complaints in this
  order.
-/

namespace ContractAdmission

/-- A complaint about settings: the word for its sort, what it is about, and its text. -/
structure Complaint where
  code : String
  location : List Step
  message : String
  deriving DecidableEq, Repr

/-- The complaint that reports a violation. -/
def Violation.complaint (violation : Violation) : Complaint :=
  ⟨violation.code, violation.location, violation.message⟩

namespace Config

/-- What a field is set to: what the settings give to its key, or else its default. -/
def Sets (environment : Environment) (settings : Settings) (field : Field) (value : Setting) :
    Prop :=
  (field.key, value) ∈ settings ∨
    field.key ∉ settings.map (·.1) ∧ value = field.default environment

/-- The configuration that settings make, where nothing is wrong with them. -/
structure MadeFrom (environment : Environment) (settings : Settings) (config : Config) : Prop where
  hostVersion : Sets environment settings .hostVersion (.text config.hostVersion)
  knownHost : config.hostVersion ∈ Host.knownVersions
  policyName : Sets environment settings .policyName (.text config.policyName)
  knownPolicy : config.policyName ∈ Policy.knownNames
  capabilities : Sets environment settings .capabilities
    (.list (config.capabilities.map .text))
  expected : ∀ key ∈ settings.map (·.1),
    key ∈ ["host_version", "capability_policy", "capabilities"]

/-- A complaint for which settings give cause. -/
inductive Wrong (environment : Environment) (settings : Settings) : Complaint → Prop
  | notText {field : Field} {value : Setting} : field ≠ .capabilities →
      Sets environment settings field value → (∀ text, value ≠ .text text) →
      Wrong environment settings
        ⟨"string_type", [.key field.key], "Input should be a valid string"⟩
  | unknownHost {version : String} : Sets environment settings .hostVersion (.text version) →
      version ∉ Host.knownVersions →
      Wrong environment settings ⟨"value_error", [.key "host_version"],
        "Value error, host_version: " ++ version ++ " does not exist in HOST_ABI_TABLES."⟩
  | unknownPolicy {name : String} : Sets environment settings .policyName (.text name) →
      name ∉ Policy.knownNames →
      Wrong environment settings ⟨"value_error", [.key "capability_policy"],
        "Value error, capability_policy: " ++ name ++ " does not exist in POLICY_CATALOG."⟩
  | notList {value : Setting} : Sets environment settings .capabilities value →
      (∀ items, value ≠ .list items) →
      Wrong environment settings
        ⟨"list_type", [.key "capabilities"], "Input should be a valid list"⟩
  | itemNotText {items : List Setting} {index : Nat} {item : Setting} :
      Sets environment settings .capabilities (.list items) → items[index]? = some item →
      (∀ text, item ≠ .text text) →
      Wrong environment settings ⟨"string_type", [.key "capabilities", .item index],
        "Input should be a valid string"⟩
  | unexpected {key : String} : key ∈ settings.map (·.1) →
      key ∉ ["host_version", "capability_policy", "capabilities"] →
      Wrong environment settings
        ⟨"extra_forbidden", [.key key], "Extra inputs are not permitted"⟩

/-- Where a key comes in a list of complaints: the keys of the fields first, and then those of
the settings as they are set. -/
def keyRank (settings : Settings) (key : String) : Nat :=
  (["host_version", "capability_policy", "capabilities"] ++ settings.map (·.1)).idxOf key

/-- Where a location comes in a list of complaints: by its key, and then by its item. -/
def rank (settings : Settings) : List Step → Nat × Nat
  | [.key key, .item index] => (keyRank settings key, index)
  | .key key :: _ => (keyRank settings key, 0)
  | _ => (0, 0)

/-- Whether a location comes before another in a list of complaints. -/
def Precedes (settings : Settings) (first second : List Step) : Prop :=
  Prod.Lex (· < ·) (· < ·) (rank settings first) (rank settings second)

variable {environment : Environment} {settings : Settings}

/-! ### What fields are set to -/

/-- Where no key is set twice, what is set to a key is what is found under it. -/
theorem get?_eq_some_iff (hkeys : (settings.map (·.1)).Nodup) {key : String} {value : Setting} :
    settings.get? key = some value ↔ (key, value) ∈ settings := by
  induction settings with
  | nil => simp [Settings.get?]
  | cons entry rest ih =>
      obtain ⟨name, set⟩ := entry
      obtain ⟨hname, hrest⟩ := List.nodup_cons.1 hkeys
      simp only [Settings.get?, List.lookup_cons] at ih ⊢
      by_cases hkey : key = name
      · subst hkey
        -- The key is not set again further on.
        have hlater : (key, value) ∉ rest := fun hmem => hname (List.mem_map.2 ⟨_, hmem, rfl⟩)
        simp [hlater, eq_comm]
      · have hother : (key == name) = false := by simpa using hkey
        rw [hother]
        simpa [hkey] using ih hrest

theorem get?_eq_none_iff {key : String} :
    settings.get? key = none ↔ key ∉ settings.map (·.1) := by
  simp only [Settings.get?, List.lookup_eq_none_iff, List.mem_map, not_exists, not_and, bne_iff_ne]
  exact forall₂_congr fun _ _ => ne_comm

/-- Where no key is set twice, a field is set to what is effective of it and to nothing else. -/
theorem sets_iff (hkeys : (settings.map (·.1)).Nodup) {field : Field} {value : Setting} :
    Sets environment settings field value ↔ effective environment settings field = value := by
  rw [Sets, ← get?_eq_some_iff hkeys, ← get?_eq_none_iff, effective,
    environment.setting_eq_default]
  cases settings.get? field.key with
  | none => simp [eq_comm]
  | some found => simp

/-! ### The violations of a field -/

theorem mem_textViolations {field : Field} {known : List String} {unknown : String → Violation}
    {setting : Setting} {violation : Violation} :
    violation ∈ textViolations field known unknown setting ↔
      (∃ text, setting = .text text ∧ text ∉ known ∧ violation = unknown text) ∨
        (∀ text, setting ≠ .text text) ∧ violation = .notText field := by
  cases setting with
  | text text => by_cases htext : text ∈ known <;> simp [textViolations, htext]
  | list items => simp [textViolations]
  | other => simp [textViolations]

/-- Of an item that is no text there is a violation; the others follow. -/
theorem itemViolations_cons_of_ne {item : Setting} (h : ∀ text, item ≠ .text text) (index : Nat)
    (rest : List Setting) :
    itemViolations index (item :: rest) =
      .itemNotText index :: itemViolations (index + 1) rest := by
  cases item with
  | text text => exact absurd rfl (h text)
  | list items => rfl
  | other => rfl

theorem mem_itemViolations {start : Nat} {items : List Setting} {violation : Violation} :
    violation ∈ itemViolations start items ↔
      ∃ index item, items[index]? = some item ∧ (∀ text, item ≠ .text text) ∧
        violation = .itemNotText (start + index) := by
  induction items generalizing start with
  | nil => simp [itemViolations]
  | cons item rest ih =>
      -- A place in the list is the first one, or a place in the rest.
      have hplaces : (∃ index found, (item :: rest)[index]? = some found ∧
          (∀ text, found ≠ .text text) ∧ violation = .itemNotText (start + index)) ↔
          ((∀ text, item ≠ .text text) ∧ violation = .itemNotText start) ∨
            violation ∈ itemViolations (start + 1) rest := by
        rw [ih]
        constructor
        · rintro ⟨_ | index, found, hfound, hnot, rfl⟩
          · obtain rfl : item = found := by simpa using hfound
            exact Or.inl ⟨hnot, rfl⟩
          · exact Or.inr ⟨index, found, by simpa using hfound, hnot, by
              rw [Nat.add_right_comm, Nat.add_assoc]⟩
        · rintro (⟨hnot, rfl⟩ | ⟨index, found, hfound, hnot, rfl⟩)
          · exact ⟨0, item, rfl, hnot, rfl⟩
          · exact ⟨index + 1, found, by simpa using hfound, hnot, by
              rw [Nat.add_right_comm, Nat.add_assoc]⟩
      rw [hplaces]
      by_cases hitem : ∃ text, item = .text text
      · obtain ⟨text, rfl⟩ := hitem
        simp [itemViolations]
      · have hnot : ∀ text, item ≠ .text text := fun text heq => hitem ⟨text, heq⟩
        rw [itemViolations_cons_of_ne hnot, List.mem_cons]
        simp [hnot]

theorem mem_fieldViolations_capabilities {setting : Setting} {violation : Violation} :
    violation ∈ fieldViolations .capabilities setting ↔
      ((∀ items, setting ≠ .list items) ∧ violation = .notList) ∨
        ∃ items index item, setting = .list items ∧ items[index]? = some item ∧
          (∀ text, item ≠ .text text) ∧ violation = .itemNotText index := by
  cases setting with
  | text text => simp [fieldViolations]
  | list items => simp [fieldViolations, mem_itemViolations]
  | other => simp [fieldViolations]

theorem mem_unexpectedKeys {key : String} :
    key ∈ unexpectedKeys settings ↔ key ∈ settings.map (·.1) ∧ key ∉ Field.keys := by
  rw [unexpectedKeys, List.mem_filter, decide_eq_true_eq]

theorem mem_violations_iff {violation : Violation} :
    violation ∈ violations environment settings ↔
      (∃ field, violation ∈ fieldViolations field (effective environment settings field)) ∨
        ∃ key ∈ unexpectedKeys settings, violation = .unexpected key := by
  simp only [violations, List.mem_append, List.mem_flatMap, List.mem_map, Field.mem_all, true_and,
    eq_comm]

/-- Settings give cause for the complaints that report their violations, and for no others. -/
theorem mem_complaints_iff (hkeys : (settings.map (·.1)).Nodup) {complaint : Complaint} :
    complaint ∈ (violations environment settings).map Violation.complaint ↔
      Wrong environment settings complaint := by
  constructor
  · rintro hmem
    obtain ⟨violation, hviolation, rfl⟩ := List.mem_map.1 hmem
    rcases mem_violations_iff.1 hviolation with ⟨field, hfield⟩ | ⟨key, hkey, rfl⟩
    · have hsets : Sets environment settings field (effective environment settings field) :=
        (sets_iff hkeys).2 rfl
      cases field with
      | hostVersion =>
          rcases mem_textViolations.1 hfield with ⟨version, hset, hunknown, rfl⟩ | ⟨hnot, rfl⟩
          · exact .unknownHost (hset ▸ hsets) hunknown
          · exact .notText (by decide) hsets hnot
      | policyName =>
          rcases mem_textViolations.1 hfield with ⟨name, hset, hunknown, rfl⟩ | ⟨hnot, rfl⟩
          · exact .unknownPolicy (hset ▸ hsets) hunknown
          · exact .notText (by decide) hsets hnot
      | capabilities =>
          rcases mem_fieldViolations_capabilities.1 hfield with
            ⟨hnot, rfl⟩ | ⟨items, index, item, hset, hitem, hnot, rfl⟩
          · exact .notList hsets hnot
          · exact .itemNotText (hset ▸ hsets) hitem hnot
    · obtain ⟨hset, hother⟩ := mem_unexpectedKeys.1 hkey
      exact .unexpected hset hother
  · intro hwrong
    -- The violation of a field is one of the settings.
    have hfound : ∀ (field : Field) {violation : Violation},
        violation ∈ fieldViolations field (effective environment settings field) →
          violation.complaint ∈ (violations environment settings).map Violation.complaint :=
      fun field _ hmem => List.mem_map_of_mem (mem_violations_iff.2 (Or.inl ⟨field, hmem⟩))
    cases hwrong with
    | @notText field value hfield hsets hnot =>
        obtain rfl := (sets_iff hkeys).1 hsets
        cases field with
        | hostVersion =>
            exact hfound .hostVersion (mem_textViolations.2 (Or.inr ⟨hnot, rfl⟩))
        | policyName =>
            exact hfound .policyName (mem_textViolations.2 (Or.inr ⟨hnot, rfl⟩))
        | capabilities => exact absurd rfl hfield
    | unknownHost hsets hunknown =>
        exact hfound .hostVersion
          (mem_textViolations.2 (Or.inl ⟨_, (sets_iff hkeys).1 hsets, hunknown, rfl⟩))
    | unknownPolicy hsets hunknown =>
        exact hfound .policyName
          (mem_textViolations.2 (Or.inl ⟨_, (sets_iff hkeys).1 hsets, hunknown, rfl⟩))
    | notList hsets hnot =>
        obtain rfl := (sets_iff hkeys).1 hsets
        exact hfound .capabilities (mem_fieldViolations_capabilities.2 (Or.inl ⟨hnot, rfl⟩))
    | itemNotText hsets hitem hnot =>
        exact hfound .capabilities (mem_fieldViolations_capabilities.2
          (Or.inr ⟨_, _, _, (sets_iff hkeys).1 hsets, hitem, hnot, rfl⟩))
    | unexpected hset hother =>
        exact List.mem_map_of_mem
          (mem_violations_iff.2 (Or.inr ⟨_, mem_unexpectedKeys.2 ⟨hset, hother⟩, rfl⟩))

/-! ### The order of violations -/

/-- The violations of a field are about its key. -/
theorem rank_of_mem_fieldViolations {field : Field} {setting : Setting} {violation : Violation}
    (h : violation ∈ fieldViolations field setting) :
    (rank settings violation.location).1 = Field.keys.idxOf field.key := by
  have hfield : keyRank settings field.key = Field.keys.idxOf field.key :=
    List.idxOf_append_of_mem field.key_mem_keys
  rw [← hfield]
  cases field with
  | hostVersion =>
      rcases mem_textViolations.1 h with ⟨_, -, -, rfl⟩ | ⟨-, rfl⟩ <;> rfl
  | policyName =>
      rcases mem_textViolations.1 h with ⟨_, -, -, rfl⟩ | ⟨-, rfl⟩ <;> rfl
  | capabilities =>
      rcases mem_fieldViolations_capabilities.1 h with ⟨-, rfl⟩ | ⟨_, _, _, -, -, -, rfl⟩ <;> rfl

/-- The violations of items come in the order of the items. -/
theorem pairwise_itemViolations (start : Nat) (items : List Setting) :
    (itemViolations start items).Pairwise fun first second =>
      Precedes settings first.location second.location := by
  induction items generalizing start with
  | nil => exact .nil
  | cons item rest ih =>
      by_cases hitem : ∃ text, item = .text text
      · obtain ⟨text, rfl⟩ := hitem
        exact ih (start + 1)
      · rw [itemViolations_cons_of_ne fun text heq => hitem ⟨text, heq⟩]
        refine List.pairwise_cons.2 ⟨?_, ih (start + 1)⟩
        intro violation hviolation
        obtain ⟨index, _, -, -, rfl⟩ := mem_itemViolations.1 hviolation
        exact Prod.Lex.right _ (by omega)

theorem pairwise_fieldViolations (field : Field) (setting : Setting) :
    (fieldViolations field setting).Pairwise fun first second =>
      Precedes settings first.location second.location := by
  have htext : ∀ (field : Field) (known : List String) (unknown : String → Violation),
      (textViolations field known unknown setting).Pairwise fun first second =>
        Precedes settings first.location second.location := by
    intro field known unknown
    cases setting with
    | text text => by_cases hknown : text ∈ known <;> simp [textViolations, hknown]
    | list items => exact List.pairwise_singleton ..
    | other => exact List.pairwise_singleton ..
  cases field with
  | hostVersion => exact htext ..
  | policyName => exact htext ..
  | capabilities =>
      cases setting with
      | text text => exact List.pairwise_singleton ..
      | list items => exact pairwise_itemViolations 0 items
      | other => exact List.pairwise_singleton ..

/-- The items of a list without repetitions stand in the order of their places. -/
theorem pairwise_idxOf {names : List String} (h : names.Nodup) :
    names.Pairwise fun first second => names.idxOf first < names.idxOf second := by
  rw [List.pairwise_iff_getElem]
  intro i j hi hj hlt
  rwa [h.idxOf_getElem i hi, h.idxOf_getElem j hj]

theorem keyRank_of_unexpected {key : String} (h : key ∉ Field.keys) :
    keyRank settings key = Field.keys.length + (settings.map (·.1)).idxOf key :=
  List.idxOf_append_of_notMem h

theorem pairwise_unexpectedKeys (hkeys : (settings.map (·.1)).Nodup) :
    ((unexpectedKeys settings).map Violation.unexpected).Pairwise fun first second =>
      Precedes settings first.location second.location := by
  rw [List.pairwise_map]
  refine List.Pairwise.imp_of_mem ?_ ((pairwise_idxOf hkeys).filter _)
  intro first second hfirst hsecond hlt
  refine Prod.Lex.left _ _ ?_
  show keyRank settings first < keyRank settings second
  rw [keyRank_of_unexpected (mem_unexpectedKeys.1 hfirst).2,
    keyRank_of_unexpected (mem_unexpectedKeys.1 hsecond).2]
  omega

/-- Violations come one after the other in the order of what they are about. -/
theorem pairwise_violations (hkeys : (settings.map (·.1)).Nodup) :
    (violations environment settings).Pairwise fun first second =>
      Precedes settings first.location second.location := by
  refine List.pairwise_append.2 ⟨?_, pairwise_unexpectedKeys hkeys, ?_⟩
  · refine List.pairwise_flatMap.2 ⟨fun field _ => pairwise_fieldViolations field _, ?_⟩
    have hfields : Field.all.Pairwise fun first second =>
        Field.keys.idxOf first.key < Field.keys.idxOf second.key := by decide
    refine hfields.imp fun {first second} hlt violation hviolation other hother => ?_
    refine (Prod.lex_def ..).2 (Or.inl ?_)
    rwa [rank_of_mem_fieldViolations hviolation, rank_of_mem_fieldViolations hother]
  · -- A key of a field comes before the keys that no field has.
    intro violation hviolation other hother
    obtain ⟨field, -, hfield⟩ := List.mem_flatMap.1 hviolation
    obtain ⟨key, hkey, rfl⟩ := List.mem_map.1 hother
    refine (Prod.lex_def ..).2 (Or.inl ?_)
    have hlt : Field.keys.idxOf field.key < Field.keys.length :=
      List.idxOf_lt_length_of_mem field.key_mem_keys
    rw [rank_of_mem_fieldViolations hfield]
    show Field.keys.idxOf field.key < keyRank settings key
    rw [keyRank_of_unexpected (mem_unexpectedKeys.1 hkey).2]
    omega

/-! ### Configurations -/

/-- Nothing is wrong with settings exactly when their fields are set to what these allow, and
no other key is set. -/
theorem violations_eq_nil_iff :
    violations environment settings = [] ↔
      (∀ field : Field, field.Allows (effective environment settings field)) ∧
        ∀ key ∈ settings.map (·.1), key ∈ Field.keys := by
  have hkeys : unexpectedKeys settings = [] ↔ ∀ key ∈ settings.map (·.1), key ∈ Field.keys := by
    simp [unexpectedKeys, List.filter_eq_nil_iff]
  rw [violations, List.append_eq_nil_iff, List.map_eq_nil_iff, hkeys, List.flatMap_eq_nil_iff]
  simp only [Field.mem_all, true_implies, fieldViolations_eq_nil_iff]

/-- Settings make a configuration exactly when it holds what the fields are set to, all of it is
valid, and no other key is set. -/
theorem ofSettings_eq_ok_iff (hkeys : (settings.map (·.1)).Nodup) {config : Config} :
    ofSettings environment settings = .ok config ↔ MadeFrom environment settings config := by
  constructor
  · intro hmade
    have hallows := allows_of_ofSettings hmade
    obtain ⟨version, hversion, hhost⟩ := hallows .hostVersion
    obtain ⟨name, hname, hpolicy⟩ := hallows .policyName
    obtain ⟨granted, hgranted⟩ := hallows .capabilities
    unfold ofSettings at hmade
    split at hmade
    · rename_i hnone
      cases hmade
      refine ⟨(sets_iff hkeys).2 ?_, ?_, (sets_iff hkeys).2 ?_, ?_, (sets_iff hkeys).2 ?_,
        (violations_eq_nil_iff.1 hnone).2⟩
      · rw [hhost]
        rfl
      · rw [hhost]
        exact hversion
      · rw [hpolicy]
        rfl
      · rw [hpolicy]
        exact hname
      · simp [hgranted, texts, Setting.text?, List.filterMap_map]
    · cases hmade
  · rintro ⟨hhost, hversion, hpolicy, hname, hgranted, hexpected⟩
    rw [sets_iff hkeys] at hhost hpolicy hgranted
    have hnone : violations environment settings = [] := by
      refine violations_eq_nil_iff.2 ⟨fun field => ?_, hexpected⟩
      cases field with
      | hostVersion => exact ⟨_, hversion, hhost⟩
      | policyName => exact ⟨_, hname, hpolicy⟩
      | capabilities => exact ⟨_, hgranted⟩
    simp [ofSettings, hnone, hhost, hpolicy, hgranted, texts, Setting.text?, List.filterMap_map]

theorem violations_of_error {found : List Violation}
    (h : ofSettings environment settings = .error found) :
    found = violations environment settings ∧ found ≠ [] := by
  unfold ofSettings at h
  split at h
  · cases h
  · rename_i hsome
    cases h
    exact ⟨rfl, hsome⟩

end Config

/-- **Validation is exact, and complains about everything that is wrong, once and in order.**

Settings in which no key is set twice make a configuration exactly when it holds what the fields
are set to, these are a known host, a known policy and a list of texts, and no other key is set.
Otherwise there are complaints; settings give cause for each of them, there is one of them
for everything for which settings give cause, and they come in the order of what they are
about, so that no two are about the same. -/
theorem validation_exact (environment : Environment) (settings : Settings)
    (hkeys : (settings.map (·.1)).Nodup) :
    (∀ config, Config.ofSettings environment settings = .ok config ↔
      Config.MadeFrom environment settings config) ∧
    (∀ found, Config.ofSettings environment settings = .error found →
      found ≠ [] ∧
      (∀ complaint, complaint ∈ found.map Violation.complaint ↔
        Config.Wrong environment settings complaint) ∧
      ((found.map Violation.complaint).map (·.location)).Pairwise (Config.Precedes settings)) := by
  refine ⟨fun config => Config.ofSettings_eq_ok_iff hkeys, ?_⟩
  intro found hfound
  obtain ⟨rfl, hsome⟩ := Config.violations_of_error hfound
  refine ⟨hsome, fun complaint => Config.mem_complaints_iff hkeys, ?_⟩
  rw [List.map_map, List.pairwise_map]
  exact Config.pairwise_violations hkeys

/-- Everything is wrong at once, in the environment and in the settings; and a list with a
repeated name and one in blanks is kept as it is. -/
theorem validation_exact_everything :
    let settings : Settings :=
      [("x", .other), ("capabilities", .list [.other, .text "a", .list []]),
        ("capability_policy", .other)]
    Config.ofSettings { hostVersion := some "y" } settings =
        .error [.unknownHost "y", .notText .policyName, .itemNotText 0, .itemNotText 2,
          .unexpected "x"] ∧
      Config.Wrong { hostVersion := some "y" } settings
        ⟨"string_type", [.key "capabilities", .item 2], "Input should be a valid string"⟩ ∧
      Config.MadeFrom {} [("capabilities", .list [.text " b", .text "a", .text " b"])]
        ⟨"cosmwasm-1", "none", [" b", "a", " b"]⟩ := by
  intro settings
  have hfound : Config.ofSettings { hostVersion := some "y" } settings =
      .error [.unknownHost "y", .notText .policyName, .itemNotText 0, .itemNotText 2,
        .unexpected "x"] := by rfl
  refine ⟨hfound, ?_, ?_⟩
  · have hexact := (validation_exact { hostVersion := some "y" } settings (by decide)).2 _ hfound
    exact (hexact.2.1 _).1 (by decide)
  · exact ((validation_exact {} _ (by decide)).1 _).1 rfl

end ContractAdmission
