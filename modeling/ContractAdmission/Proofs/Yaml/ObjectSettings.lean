import ContractAdmission.Proofs.Yaml.FlowGraph
import ContractAdmission.Yaml.Meaning

/-!
# The settings of JSON text

An object of strings and arrays of strings sets each of its keys to what stands there.  So a
document that is the indented text of an object makes the settings that the object lists, in the
same order.

* `Json.setting` — what a value sets a key to.
* `Document.settingsOfBytes_indented` — the settings of the indented text of an object.
-/

namespace ContractAdmission
namespace Json

/-- The setting that a member of a list is.  Only strings count. -/
def itemSetting : Json → Setting
  | .string value => .text value
  | _ => .other

/-- The setting that a value is. -/
def setting : Json → Setting
  | .string value => .text value
  | .array items => .list (items.map itemSetting)
  | _ => .other

/-- The settings that the members of an object are. -/
def settings (members : List (String × Json)) : Settings :=
  members.map fun member => (member.1, member.2.setting)

end Json

namespace Settings

/-- A key that is not set yet comes last. -/
theorem set_of_notMem {settings : Settings} {key : String} (value : Setting)
    (h : key ∉ settings.map (·.1)) : set key value settings = settings ++ [(key, value)] := by
  induction settings with
  | nil => rfl
  | cons entry rest ih =>
      obtain ⟨other, old⟩ := entry
      rw [List.map_cons, List.mem_cons, not_or] at h
      rw [set, if_neg (Ne.symm h.1), ih h.2, List.cons_append]

/-- Pairs with distinct keys are the settings that they make. -/
theorem ofPairs_of_nodup {pairs : Settings} (h : (pairs.map (·.1)).Nodup) :
    ofPairs pairs = pairs := by
  suffices hfold : ∀ before : Settings, ((before ++ pairs).map (·.1)).Nodup →
      pairs.foldl (fun settings pair => set pair.1 pair.2 settings) before = before ++ pairs by
    exact hfold [] h
  clear h
  induction pairs with
  | nil => exact fun before _ => (List.append_nil before).symm
  | cons pair pairs ih =>
      intro before hkeys
      have hnew : pair.1 ∉ before.map (·.1) := by
        rw [List.map_append, List.nodup_append] at hkeys
        exact fun hmem => hkeys.2.2 _ hmem pair.1 (by simp) rfl
      rw [List.foldl_cons, set_of_notMem pair.2 hnew, ih _ (by simpa using hkeys)]
      simp

end Settings

namespace Yaml
namespace Graph

mutual

/-- The nodes of a value are plain. -/
theorem Holds.plain : ∀ {value : Json} {graph : Graph} {bound id : Nat},
    graph.Holds bound value id → graph.Plain id
  | .string _, _, _, _, h => .text h.2
  | .array _, _, _, _, h => by
      obtain ⟨-, ids, hhas, hitems⟩ := h
      exact .list hhas (HoldsItems.plain hitems)
  | .object _, _, _, _, h => by
      obtain ⟨-, pairs, hhas, hmembers⟩ := h
      exact .mapping hhas (HoldsMembers.keys hmembers) (HoldsMembers.plain hmembers)

theorem HoldsItems.plain : ∀ {items : List Json} {graph : Graph} {bound : Nat} {ids : List Nat},
    graph.HoldsItems bound items ids → ∀ id ∈ ids, graph.Plain id
  | [], _, _, _, h => by
      subst h
      exact fun _ hid => absurd hid List.not_mem_nil
  | _ :: _, _, _, _, h => by
      obtain ⟨id, later, rfl, hitem, hitems⟩ := h
      exact List.forall_mem_cons.2 ⟨Holds.plain hitem, HoldsItems.plain hitems⟩

theorem HoldsMembers.plain : ∀ {members : List (String × Json)} {graph : Graph} {bound : Nat}
    {pairs : List (Nat × Nat)}, graph.HoldsMembers bound members pairs →
      ∀ pair ∈ pairs, graph.Plain pair.2
  | [], _, _, _, h => by
      subst h
      exact fun _ hpair => absurd hpair List.not_mem_nil
  | _ :: _, _, _, _, h => by
      obtain ⟨keyId, valueId, later, rfl, -, hvalue, hmembers⟩ := h
      exact List.forall_mem_cons.2 ⟨Holds.plain hvalue, HoldsMembers.plain hmembers⟩

theorem HoldsMembers.keys : ∀ {members : List (String × Json)} {graph : Graph} {bound : Nat}
    {pairs : List (Nat × Nat)}, graph.HoldsMembers bound members pairs →
      ∀ pair ∈ pairs, ∃ text, graph.Has pair.1 ⟨.str, .scalar text⟩
  | [], _, _, _, h => by
      subst h
      exact fun _ hpair => absurd hpair List.not_mem_nil
  | (key, _) :: _, _, _, _, h => by
      obtain ⟨keyId, valueId, later, rfl, hkey, -, hmembers⟩ := h
      exact List.forall_mem_cons.2 ⟨⟨.whole key, hkey.2⟩, HoldsMembers.keys hmembers⟩

end

end Graph

namespace Construction

variable {state : Construction} {bound id : Nat}

/-- A string that is settled is its text. -/
theorem text?_eq {text : CodeText} (h : state.graph.Has id ⟨.str, .scalar text⟩)
    (hsettled : state.Settled id) : state.text? id = some text := by
  rw [text?, (settled_text_iff h).1 hsettled]

theorem itemSetting_eq {value : Json} (h : state.graph.Holds bound value id)
    (hsettled : state.Settled id) : state.itemSetting id = value.itemSetting := by
  cases value with
  | null => exact h.elim
  | bool value => exact h.elim
  | string text => rw [itemSetting, text?_eq h.2 hsettled]; rfl
  | array items =>
      obtain ⟨-, ids, hhas, -⟩ := h
      rw [itemSetting, text?, ((settled_list_iff hhas).1 hsettled).1]
      rfl
  | object members =>
      obtain ⟨-, pairs, hhas, -⟩ := h
      rw [itemSetting, text?, ((settled_mapping_iff hhas).1 hsettled).1]
      rfl

theorem map_itemSetting_eq {items : List Json} {ids : List Nat}
    (h : state.graph.HoldsItems bound items ids) (hsettled : ∀ id ∈ ids, state.Settled id) :
    ids.map state.itemSetting = items.map Json.itemSetting := by
  induction items generalizing ids with
  | nil =>
      obtain rfl : ids = [] := h
      rfl
  | cons item items ih =>
      obtain ⟨id, later, rfl, hitem, hitems⟩ := h
      obtain ⟨hid, hlater⟩ := List.forall_mem_cons.1 hsettled
      rw [List.map_cons, List.map_cons, itemSetting_eq hitem hid, ih hitems hlater]

/-- A value that is settled with all that is in it sets what it says. -/
theorem setting_eq {value : Json} (h : state.graph.Holds bound value id)
    (hmet : state.Met id) (hsettled : ∀ id, state.Met id → state.Settled id) :
    state.setting id = value.setting := by
  cases value with
  | null => exact h.elim
  | bool value => exact h.elim
  | string text =>
      have hvalue := (settled_text_iff h.2).1 (hsettled id hmet)
      rw [setting, hvalue, text?_eq h.2 (hsettled id hmet)]
      rfl
  | array items =>
      obtain ⟨-, ids, hhas, hitems⟩ := h
      obtain ⟨hvalue, hmembers⟩ := (settled_list_iff hhas).1 (hsettled id hmet)
      rw [setting, hvalue]
      show Setting.list (ids.map state.itemSetting) = _
      rw [map_itemSetting_eq hitems fun item hitem => hsettled item (hmembers item hitem)]
      rfl
  | object members =>
      obtain ⟨-, pairs, hhas, -⟩ := h
      have hvalue := ((settled_mapping_iff hhas).1 (hsettled id hmet)).1
      rw [setting, hvalue, text?, hvalue]
      rfl

theorem mapM_settings {members : List (String × Json)} {pairs : List (Nat × Nat)}
    (h : state.graph.HoldsMembers bound members pairs)
    (hmet : ∀ pair ∈ pairs, state.Met pair.1 ∧ state.Met pair.2)
    (hsettled : ∀ id, state.Met id → state.Settled id) :
    (pairs.mapM fun pair =>
        (state.text? pair.1).map fun key => (key.shown, state.setting pair.2)) =
      some (Json.settings members) := by
  induction members generalizing pairs with
  | nil =>
      obtain rfl : pairs = [] := h
      rfl
  | cons member members ih =>
      obtain ⟨key, value⟩ := member
      obtain ⟨keyId, valueId, later, rfl, hkey, hvalue, hmembers⟩ := h
      obtain ⟨⟨hkeyMet, hvalueMet⟩, hlater⟩ := List.forall_mem_cons.1 hmet
      rw [List.mapM_cons, text?_eq hkey.2 (hsettled keyId hkeyMet),
        setting_eq hvalue hvalueMet hsettled, ih hmembers hlater]
      rfl

end Construction

namespace Document

/-- An object makes the settings that its members are. -/
theorem settings_object {members : List (String × Json)} (h : (Json.object members).Quoted)
    (hmembers : members ≠ []) (hkeys : (members.map (·.1)).Nodup) :
    settings (some (Json.object members).node) = .ok (Json.settings members) := by
  have hholds := Graph.holds_ofNode h
  obtain ⟨state, hstate, hgraph, hroot, hsettled⟩ := Construction.ofNode_sound hholds.plain
  rw [← hgraph] at hholds
  obtain ⟨-, pairs, hhas, hpairs⟩ := hholds
  obtain ⟨hvalue, hmet⟩ := (Construction.settled_mapping_iff hhas).1 (hsettled _ hroot)
  have hnonempty : (Value.mapping pairs).isNothing = false := by
    cases members with
    | nil => exact absurd rfl hmembers
    | cons member members =>
        obtain ⟨key, value⟩ := member
        obtain ⟨keyId, valueId, later, rfl, -⟩ := hpairs
        rfl
  have hdistinct : ((Json.settings members).map (·.1)).Nodup := by
    rw [Json.settings, List.map_map]
    exact hkeys
  have hsettings : state.settings? pairs = some (Json.settings members) := by
    rw [Construction.settings?, Construction.mapM_settings hpairs hmet hsettled, Option.map_some,
      Settings.ofPairs_of_nodup hdistinct]
  rw [settings, hstate]
  simp only [rootSettings, hvalue, hnonempty, hsettings]
  rfl

end Document
end Yaml

/-! ### The bytes of a text -/

/-- The bytes of a text of ASCII are the codes of its characters. -/
theorem Text.bytes_ascii {chars : List Char} (h : ∀ c ∈ chars, c.toNat < 0x80) :
    (String.ofList chars).toByteArray.data.toList = chars.map fun c => UInt8.ofNat c.toNat := by
  have hbytes : chars.flatMap String.utf8EncodeChar = chars.map fun c => UInt8.ofNat c.toNat := by
    induction chars with
    | nil => rfl
    | cons c rest ih =>
        obtain ⟨hc, hrest⟩ := List.forall_mem_cons.1 h
        have hsize : c.utf8Size = 1 :=
          Char.utf8Size_eq_one_iff.2 (UInt32.le_iff_toNat_le.2 (Nat.le_of_lt_succ hc))
        rw [List.flatMap_cons, List.map_cons, ih hrest,
          String.utf8EncodeChar_eq_singleton hsize]
        rfl
  rw [String.toByteArray_ofList, List.utf8Encode, List.data_toByteArray, hbytes]

namespace Json

/-- A text of visible characters and line ends. -/
def Shown (text : List Char) : Prop := ∀ c ∈ text, Visible c ∨ c = '\n'

@[simp] theorem shown_nil : Shown [] := by simp [Shown]

@[simp] theorem shown_cons {c : Char} {text : List Char} :
    Shown (c :: text) ↔ (Visible c ∨ c = '\n') ∧ Shown text := by simp [Shown]

@[simp] theorem shown_append {first second : List Char} :
    Shown (first ++ second) ↔ Shown first ∧ Shown second := by
  simp [Shown, or_imp, forall_and]

theorem shown_of_isGap {gap : List Char} (h : Yaml.Tokenizer.IsGap gap) : Shown gap := by
  intro c hc
  rcases h c hc with rfl | rfl
  · exact Or.inl (by decide)
  · exact Or.inr rfl

theorem shown_newline (depth : Nat) : Shown (newline depth) :=
  shown_of_isGap (Yaml.Tokenizer.isGap_newline depth)

theorem shown_quote {s : String} (h : Ascii s) : Shown (quote s) :=
  fun _ hc => Or.inl (visible_of_mem_quote h hc)

mutual

theorem shown_indentedAt : ∀ {value : Json}, value.Quoted → ∀ depth,
    Shown (value.indentedAt depth)
  | .string _, h, _ => shown_quote h
  | .array [], _, _ => by simp [indentedAt, Visible]
  | .array (item :: items), h, depth => by
      have hitems : Shown (indentedItems (depth + 1) (item :: items)) :=
        shown_indentedItems h (depth + 1)
      simp [indentedAt, Visible, hitems, shown_newline]
  | .object [], _, _ => by simp [indentedAt, Visible]
  | .object (member :: members), h, depth => by
      have hmembers : Shown (indentedMembers (depth + 1) (member :: members)) :=
        shown_indentedMembers h (depth + 1)
      simp [indentedAt, Visible, hmembers, shown_newline]

theorem shown_indentedItems : ∀ {items : List Json}, QuotedItems items → ∀ depth,
    Shown (indentedItems depth items)
  | [], _, _ => shown_nil
  | [_], h, depth => by
      simp [indentedItems, shown_newline, shown_indentedAt h.1 depth]
  | _ :: next :: items, h, depth => by
      simp [indentedItems, Visible, shown_newline, shown_indentedAt h.1 depth,
        shown_indentedItems h.2 depth]

theorem shown_indentedMembers : ∀ {members : List (String × Json)}, QuotedMembers members →
    ∀ depth, Shown (indentedMembers depth members)
  | [], _, _ => shown_nil
  | [(_, _)], h, depth => by
      simp [indentedMembers, Visible, shown_newline, shown_quote h.1.1,
        shown_indentedAt h.2.1 depth]
  | (_, _) :: next :: members, h, depth => by
      simp [indentedMembers, Visible, shown_newline, shown_quote h.1.1,
        shown_indentedAt h.2.1 depth, shown_indentedMembers h.2.2 depth]

end

end Json

namespace Yaml

theorem normaliseLines_of_shown {chars : List Char} (h : Json.Shown chars) :
    normaliseLines chars = chars := by
  induction chars with
  | nil => rfl
  | cons c rest ih =>
      obtain ⟨hc, hrest⟩ := Json.shown_cons.1 h
      have hreturn : c ≠ '\r' := by
        rintro rfl
        exact absurd hc (by decide)
      rw [normaliseLines, if_neg hreturn, ih hrest]
      exact fun _ heq => absurd heq hreturn

theorem isAllowed_of_shown {chars : List Char} (h : Json.Shown chars) :
    ∀ c ∈ chars, isAllowed c = true := by
  intro c hc
  rcases h c hc with ⟨hlow, hhigh⟩ | rfl
  · simp [isAllowed, hlow, hhigh]
  · decide

/-- The characters of a shown text are found in its bytes, and no fault after them. -/
theorem Source.ofBytes_of_shown {chars : List Char} (h : Json.Shown chars) :
    Source.ofBytes (String.ofList chars).toByteArray.data.toList = ⟨chars, none⟩ := by
  have hascii : ∀ c ∈ chars, c.toNat < 0x80 := by
    intro c hc
    rcases h c hc with ⟨-, hhigh⟩ | rfl
    · omega
    · decide
  have hcode : ∀ c ∈ chars, (UInt8.ofNat c.toNat).toNat = c.toNat := fun c hc =>
    Nat.mod_eq_of_lt (Nat.lt_trans (hascii c hc) (by decide))
  have hdecoded : Text.utf8Decode (chars.map fun c => UInt8.ofNat c.toNat) = (chars, .clean) := by
    have hlow : ∀ b ∈ chars.map fun c => UInt8.ofNat c.toNat, b.toNat < 0x80 := by
      intro b hb
      obtain ⟨c, hc, rfl⟩ := List.mem_map.1 hb
      rw [hcode c hc]
      exact hascii c hc
    have hchars : (chars.map fun c => UInt8.ofNat c.toNat).map (fun b => Char.ofNat b.toNat) =
        chars := by
      rw [List.map_map]
      refine (List.map_congr_left fun c hc => ?_).trans (List.map_id chars)
      show Char.ofNat (UInt8.ofNat c.toNat).toNat = c
      rw [hcode c hc, Char.ofNat_toNat]
    rw [Text.utf8Decode, Text.utf8From_ascii _ 0 hlow, hchars]
  have hfault : chars.findIdx? (fun c => !isAllowed c) = none := by
    refine List.findIdx?_eq_none_iff.2 fun c hc => ?_
    rw [isAllowed_of_shown h c hc, Bool.not_true]
  have hreadable : readable (chars.map fun c => UInt8.ofNat c.toNat) = (chars, true) := by
    simp only [readable, hdecoded, normaliseLines_of_shown h]
  rw [Text.bytes_ascii hascii]
  simp only [ofBytes, hreadable, faultAt, hfault, if_true]

/-- A document that is the indented text of an object makes the settings that the object lists, in
the same order.  Spaces and line ends may follow the text. -/
theorem Document.settingsOfBytes_indented {members : List (String × Json)} {gap : List Char}
    (h : (Json.object members).Quoted) (hdepth : (Json.object members).depth < Parser.maxLevels)
    (hmembers : members ≠ []) (hkeys : (members.map (·.1)).Nodup) (hgap : Tokenizer.IsGap gap) :
    settingsOfBytes
        (String.ofList ((Json.object members).indentedAt 0 ++ gap)).toByteArray.data.toList =
      .ok (Json.settings members) := by
  have hshown : Json.Shown ((Json.object members).indentedAt 0 ++ gap) :=
    Json.shown_append.2 ⟨Json.shown_indentedAt h 0, Json.shown_of_isGap hgap⟩
  unfold settingsOfBytes
  rw [Source.ofBytes_of_shown hshown, Tokenizer.ofSource_indented h hgap,
    ofTokens_tokens h hdepth]
  exact settings_object h hmembers hkeys

end Yaml
end ContractAdmission
