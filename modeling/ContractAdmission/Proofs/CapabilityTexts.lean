import ContractAdmission.Proofs.GrantableContracts
import Mathlib.Data.List.TakeWhile

/-!
# The algebra of capability texts

Capabilities are read from lists of texts, and lists of texts that differ in how they are
written give the same set: the texts can be joined, divided at commas, put in another order and
repeated, and blanks can be added at their ends and beside their commas.  The set of two lists
together is the union of their sets, and the names in a set are read back as the same set.

* `Text.stripChars_eq_iff` — what is left of a text without the blanks at its ends.
* `IsSegment` — what stands between two commas of a text; `mem_splitOn_iff` finds it.
* `CapabilitySet.Spaced` — a text with blanks added where they say nothing.
* `capability_texts_algebra` — the laws, and which names a list of texts has.
-/

namespace ContractAdmission

/-! ### Blanks at the ends of a text -/

namespace Text

/-- A text of blank characters alone. -/
def AllBlank (cs : List Char) : Prop := ∀ c ∈ cs, isBlank c = true

/-- What is left of a text without the blanks at its ends: on both sides nothing but blanks was
taken away, and it neither begins nor ends with one. -/
structure Stripped (kept cs : List Char) : Prop where
  split : ∃ left right, cs = left ++ kept ++ right ∧ AllBlank left ∧ AllBlank right
  first : ∀ c, kept.head? = some c → isBlank c = false
  last : ∀ c, kept.getLast? = some c → isBlank c = false

section Trim

variable {p : Char → Bool}

theorem trimRight_of_all {cs : List Char} (h : ∀ c ∈ cs, p c = true) : trimRight p cs = [] := by
  induction cs with
  | nil => rfl
  | cons c rest ih =>
      obtain ⟨hc, hrest⟩ := List.forall_mem_cons.1 h
      rw [trimRight, ih hrest, if_pos hc]

/-- Characters of the class at the end of a text are trimmed with it. -/
theorem trimRight_append {right : List Char} (h : ∀ c ∈ right, p c = true) (cs : List Char) :
    trimRight p (cs ++ right) = trimRight p cs := by
  induction cs with
  | nil => exact trimRight_of_all h
  | cons c rest ih => rw [List.cons_append, trimRight, trimRight, ih]

/-- What is trimmed from the end of a text are characters of the class. -/
theorem exists_trimmed (cs : List Char) :
    ∃ right, cs = trimRight p cs ++ right ∧ ∀ c ∈ right, p c = true := by
  induction cs with
  | nil => exact ⟨[], rfl, by simp⟩
  | cons c rest ih =>
      obtain ⟨right, hrest, hright⟩ := ih
      rw [trimRight]
      split
      · rename_i hnone
        rw [hnone, List.nil_append] at hrest
        split
        · rename_i hc
          exact ⟨c :: right, by rw [hrest]; rfl, List.forall_mem_cons.2 ⟨hc, hright⟩⟩
        · exact ⟨right, by rw [hrest]; rfl, hright⟩
      · exact ⟨right, by rw [List.cons_append, ← hrest], hright⟩

end Trim

variable {blanks : List Char}

theorem stripChars_blanks_append (h : AllBlank blanks) (cs : List Char) :
    stripChars (blanks ++ cs) = stripChars cs := by
  rw [stripChars, trim, List.dropWhile_append_of_pos h]
  rfl

theorem stripChars_append_blanks (h : AllBlank blanks) (cs : List Char) :
    stripChars (cs ++ blanks) = stripChars cs := by
  rw [stripChars, stripChars, trim, trim, List.dropWhile_append]
  split
  · -- Nothing but blanks is there on either side.
    rename_i hempty
    have hall : blanks.dropWhile isBlank = [] := List.dropWhile_eq_nil_iff.2 h
    rw [List.isEmpty_iff.1 hempty, hall]
  · exact trimRight_append h _

/-- Stripping gives the one text that is left without the blanks at the ends. -/
theorem stripChars_eq_iff {kept cs : List Char} : stripChars cs = kept ↔ Stripped kept cs := by
  constructor
  · rintro rfl
    obtain ⟨right, hright, hblank⟩ := exists_trimmed (p := isBlank) (cs.dropWhile isBlank)
    refine ⟨⟨cs.takeWhile isBlank, right, ?_, fun c hc => List.mem_takeWhile_imp hc, hblank⟩,
      fun c hc => of_head?_trim hc, fun c hc => of_getLast?_trimRight hc⟩
    calc cs = cs.takeWhile isBlank ++ cs.dropWhile isBlank := List.takeWhile_append_dropWhile.symm
      _ = cs.takeWhile isBlank ++ (stripChars cs ++ right) := by rw [stripChars, trim, ← hright]
      _ = cs.takeWhile isBlank ++ stripChars cs ++ right := (List.append_assoc ..).symm
  · rintro ⟨⟨left, right, rfl, hleft, hright⟩, hfirst, hlast⟩
    rw [stripChars_append_blanks hright, stripChars_blanks_append hleft,
      stripChars_eq_self hfirst hlast]

theorem ne_comma_of_isBlank {c : Char} (h : isBlank c = true) : c ≠ ',' := by
  rintro rfl
  exact absurd h (by decide)

end Text

/-! ### Segments of a text -/

/-- What stands in a text between two commas with no other one between them, where an end of the
text counts as a comma. -/
def IsSegment (segment cs : List Char) : Prop :=
  ',' ∉ segment ∧ ∃ before after, cs = before ++ segment ++ after ∧
    (before = [] ∨ before.getLast? = some ',') ∧ (after = [] ∨ after.head? = some ',')

/-- Each of the pieces that commas join stands between two commas. -/
theorem exists_around_of_intercalate (front back : List (List Char)) (segment : List Char) :
    ∃ before after, [','].intercalate (front ++ segment :: back) = before ++ segment ++ after ∧
      (before = [] ∨ before.getLast? = some ',') ∧ (after = [] ∨ after.head? = some ',') := by
  induction front with
  | nil =>
      cases back with
      | nil => exact ⟨[], [], by simp, Or.inl rfl, Or.inl rfl⟩
      | cons next rest =>
          refine ⟨[], ',' :: [','].intercalate (next :: rest), ?_, Or.inl rfl, Or.inr rfl⟩
          rw [List.nil_append, List.intercalate_cons_cons, List.append_assoc]
          rfl
  | cons piece front ih =>
      obtain ⟨before, after, hjoined, hbefore, hafter⟩ := ih
      refine ⟨piece ++ ',' :: before, after, ?_, Or.inr ?_, hafter⟩
      · obtain ⟨next, rest, hcons⟩ := List.exists_cons_of_ne_nil
          (List.append_ne_nil_of_right_ne_nil front (List.cons_ne_nil segment back))
        rw [List.cons_append, hcons, List.intercalate_cons_cons, ← hcons, hjoined]
        simp
      · rcases hbefore with rfl | hlast
        · simp
        · rw [List.getLast?_append, List.getLast?_cons, hlast]
          rfl

/-- Splitting at commas gives the segments. -/
theorem mem_splitOn_iff {segment cs : List Char} :
    segment ∈ cs.splitOn ',' ↔ IsSegment segment cs := by
  constructor
  · intro h
    obtain ⟨front, back, hsplit⟩ := List.append_of_mem h
    have haround := exists_around_of_intercalate front back segment
    rw [← hsplit, List.intercalate_splitOn] at haround
    exact ⟨notMem_of_mem_splitOn h, haround⟩
  · rintro ⟨hcomma, before, after, rfl, hbefore, hafter⟩
    have hone : segment.splitOn ',' = [segment] :=
      List.splitOnP_eq_singleton fun c hc => beq_eq_false_iff_ne.2 fun heq => hcomma (heq ▸ hc)
    -- The commas around the segment divide the text, one after the other.
    have hback : segment ∈ (segment ++ after).splitOn ',' := by
      cases after with
      | nil => simp [hone]
      | cons c rest =>
          obtain rfl : c = ',' := by simpa using hafter
          rw [List.splitOn, List.splitOnP_append_cons _ _ (by simp), ← List.splitOn, hone]
          exact List.mem_cons_self ..
    rcases hbefore with rfl | hlast
    · simpa using hback
    · obtain ⟨front, rfl⟩ := List.getLast?_eq_some_iff.1 hlast
      rw [List.append_assoc, List.append_assoc, List.singleton_append, List.splitOn,
        List.splitOnP_append_cons _ _ (by simp)]
      exact List.mem_append_right _ hback

theorem splitOn_cons_of_isBlank {c : Char} (h : Text.isBlank c = true) (cs : List Char) :
    (c :: cs).splitOn ',' = (cs.splitOn ',').modifyHead (List.cons c) := by
  rw [List.splitOn_cons_eq_if_modifyHead, if_neg]
  exact fun hcomma => Text.ne_comma_of_isBlank h (beq_iff_eq.1 hcomma)

/-- Blanks in front of a text change its first segment alone, and not what stripping leaves of
it. -/
theorem strip_splitOn_blanks_append {blanks : List Char} (h : Text.AllBlank blanks)
    (cs : List Char) :
    ((blanks ++ cs).splitOn ',').map Text.stripChars = (cs.splitOn ',').map Text.stripChars := by
  induction blanks with
  | nil => rfl
  | cons c rest ih =>
      obtain ⟨hc, hrest⟩ := List.forall_mem_cons.1 h
      obtain ⟨first, others, hsplit⟩ :=
        List.exists_cons_of_ne_nil (List.splitOn_ne_nil ',' (rest ++ cs))
      have hblank : Text.AllBlank [c] := by simpa [Text.AllBlank] using hc
      rw [← ih hrest, List.cons_append, splitOn_cons_of_isBlank hc, hsplit,
        List.modifyHead_cons, List.map_cons, List.map_cons]
      congr 1
      exact Text.stripChars_blanks_append hblank first

/-- What is put at the end of a text without a comma belongs to the last segment. -/
theorem exists_splitOn_append {right : List Char} (h : ',' ∉ right) (cs : List Char) :
    ∃ front last, cs.splitOn ',' = front ++ [last] ∧
      (cs ++ right).splitOn ',' = front ++ [last ++ right] := by
  induction cs with
  | nil =>
      refine ⟨[], [], by simp, ?_⟩
      exact List.splitOnP_eq_singleton fun c hc =>
        beq_eq_false_iff_ne.2 fun heq => h (heq ▸ hc)
  | cons c rest ih =>
      obtain ⟨front, last, hcs, hright⟩ := ih
      rw [List.cons_append, List.splitOn_cons_eq_if_modifyHead,
        List.splitOn_cons_eq_if_modifyHead, hcs, hright]
      by_cases hc : (c == ',') = true
      · exact ⟨[] :: front, last, by rw [if_pos hc]; rfl, by rw [if_pos hc]; rfl⟩
      · rw [if_neg hc, if_neg hc]
        cases front with
        | nil => exact ⟨[], c :: last, rfl, rfl⟩
        | cons first others => exact ⟨(c :: first) :: others, last, rfl, rfl⟩

theorem strip_splitOn_append_blanks {blanks : List Char} (h : Text.AllBlank blanks)
    (cs : List Char) :
    ((cs ++ blanks).splitOn ',').map Text.stripChars = (cs.splitOn ',').map Text.stripChars := by
  have hcomma : ',' ∉ blanks := fun hmem => Text.ne_comma_of_isBlank (h _ hmem) rfl
  obtain ⟨front, last, hcs, hblanks⟩ := exists_splitOn_append hcomma cs
  simp [hcs, hblanks, Text.stripChars_append_blanks h]

/-! ### Names -/

namespace CapabilitySet

/-- A place in a text at which blanks say nothing: at an end of the text, or beside a comma. -/
def IsGap (before after : String) : Prop :=
  before = "" ∨ after = "" ∨ before.toList.getLast? = some ',' ∨ after.toList.head? = some ','

/-- A text with blanks added where they say nothing, as often as one likes. -/
inductive Spaced (text : String) : String → Prop
  | refl : Spaced text text
  | add {before blanks after : String} : Spaced text (before ++ after) → IsGap before after →
      Text.AllBlank blanks.toList → Spaced text (before ++ blanks ++ after)

theorem namesIn_eq_of_strip_splitOn {text other : String}
    (h : (text.toList.splitOn ',').map Text.stripChars =
      (other.toList.splitOn ',').map Text.stripChars) : namesIn text = namesIn other := by
  have hmap : ∀ text : String, namesIn text =
      (((text.toList.splitOn ',').map Text.stripChars).map String.ofList).filter (· ≠ "") := by
    intro text
    rw [List.map_map]
    rfl
  rw [hmap, hmap, h]

theorem namesIn_blanks_append {blanks : String} (h : Text.AllBlank blanks.toList)
    (text : String) : namesIn (blanks ++ text) = namesIn text := by
  apply namesIn_eq_of_strip_splitOn
  rw [String.toList_append]
  exact strip_splitOn_blanks_append h _

theorem namesIn_append_blanks {blanks : String} (h : Text.AllBlank blanks.toList)
    (text : String) : namesIn (text ++ blanks) = namesIn text := by
  apply namesIn_eq_of_strip_splitOn
  rw [String.toList_append]
  exact strip_splitOn_append_blanks h _

/-- Blanks in a gap leave the names as they are. -/
theorem namesIn_of_isGap {before blanks after : String} (hgap : IsGap before after)
    (hblank : Text.AllBlank blanks.toList) :
    namesIn (before ++ blanks ++ after) = namesIn (before ++ after) := by
  rcases hgap with rfl | rfl | hlast | hfirst
  · rw [String.empty_append, String.empty_append, namesIn_blanks_append hblank]
  · rw [String.append_empty, String.append_empty, namesIn_append_blanks hblank]
  · obtain ⟨front, hfront⟩ := List.getLast?_eq_some_iff.1 hlast
    obtain rfl : before = String.ofList front ++ "," := String.toList_inj.1 (by simp [hfront])
    rw [String.append_assoc, namesIn_append_comma, namesIn_append_comma,
      namesIn_blanks_append hblank]
  · obtain ⟨back, hback⟩ := List.head?_eq_some_iff.1 hfirst
    obtain rfl : after = "," ++ String.ofList back := String.toList_inj.1 (by simp [hback])
    rw [← String.append_assoc, ← String.append_assoc, namesIn_append_comma,
      namesIn_append_comma, namesIn_append_blanks hblank]

theorem Spaced.namesIn_eq {text other : String} (h : Spaced text other) :
    namesIn other = namesIn text := by
  induction h with
  | refl => rfl
  | add _ hgap hblank ih => rw [namesIn_of_isGap hgap hblank, ih]

/-- The names in a text are what its segments are without the blanks at their ends, where
anything is left. -/
theorem mem_namesIn_iff {name text : String} :
    name ∈ namesIn text ↔
      name ≠ "" ∧ ∃ segment, IsSegment segment text.toList ∧ Text.Stripped name.toList segment := by
  have hofList : ∀ cs, String.ofList cs = name ↔ cs = name.toList := by
    intro cs
    rw [← String.toList_inj, String.toList_ofList]
  simp only [namesIn, List.mem_filter, List.mem_map, mem_splitOn_iff, hofList,
    Text.stripChars_eq_iff, decide_eq_true_eq]
  exact and_comm

/-- Lists of texts that name the same read as the same set. -/
theorem parse_eq_of_forall₂ {texts others : List String}
    (h : List.Forall₂ (fun text other => namesIn other = namesIn text) texts others) :
    parse others = parse texts := by
  have hnames : others.flatMap namesIn = texts.flatMap namesIn := by
    induction h with
    | nil => rfl
    | cons hhead _ ih => rw [List.flatMap_cons, List.flatMap_cons, hhead, ih]
  rw [parse, parse, hnames]

theorem parse_append (first second : List String) :
    parse (first ++ second) = (parse first).union (parse second) := by
  refine eq_of_mem_iff fun name => ?_
  simp only [mem_union, mem_parse, List.mem_append, or_and_right, exists_or]

/-- One text that joins the texts of a list reads as the list does. -/
theorem parse_intercalate (texts : List String) : parse [",".intercalate texts] = parse texts := by
  cases texts with
  | nil =>
      have hnone : namesIn "" = [] := by decide
      rw [String.intercalate_nil, parse, List.flatMap_singleton, hnone]
      rfl
  | cons text rest => exact (parse_pieces (List.cons_ne_nil text rest) fun _ => Iff.rfl).symm

/-- What was read is read back. -/
theorem parse_toList_parse (texts : List String) : parse (parse texts).toList = parse texts := by
  have hnames : ∀ name ∈ (parse texts).toList, IsName name := fun name hname =>
    isName_of_mem_parse hname
  rw [parse_of_isName hnames fun _ => Iff.rfl, ofList_toList]

end CapabilitySet

/-- **Capability texts can be joined, divided, rearranged and spaced at will.**

Two lists of texts together read as the union of what they read as; one text that joins the
texts of a list with commas reads as the list; lists with the same texts, in any order and
repeated at will, read as the same set; and so do lists whose texts differ in blanks at their
ends and beside their commas.  The sorted names of the set that was read are read back as this
set, as a list and as one text.  The names in the set are the nonempty ones among what the
segments of the texts are without the blanks at their ends. -/
theorem capability_texts_algebra :
    (∀ first second : List String, CapabilitySet.parse (first ++ second) =
      (CapabilitySet.parse first).union (CapabilitySet.parse second)) ∧
    (∀ texts : List String,
      CapabilitySet.parse [",".intercalate texts] = CapabilitySet.parse texts) ∧
    (∀ texts others : List String, (∀ text, text ∈ others ↔ text ∈ texts) →
      CapabilitySet.parse others = CapabilitySet.parse texts) ∧
    (∀ texts others : List String, List.Forall₂ CapabilitySet.Spaced texts others →
      CapabilitySet.parse others = CapabilitySet.parse texts) ∧
    (∀ texts : List String,
      CapabilitySet.parse (CapabilitySet.parse texts).toList = CapabilitySet.parse texts ∧
        CapabilitySet.parse [",".intercalate (CapabilitySet.parse texts).toList] =
          CapabilitySet.parse texts) ∧
    (∀ (texts : List String) (name : String), name ∈ CapabilitySet.parse texts ↔
      name ≠ "" ∧ ∃ text ∈ texts, ∃ segment,
        IsSegment segment text.toList ∧ Text.Stripped name.toList segment) := by
  refine ⟨CapabilitySet.parse_append, CapabilitySet.parse_intercalate, ?_, ?_, ?_, ?_⟩
  · intro texts others hsame
    refine CapabilitySet.eq_of_mem_iff fun name => ?_
    simp only [CapabilitySet.mem_parse, hsame]
  · intro texts others hspaced
    exact CapabilitySet.parse_eq_of_forall₂ (hspaced.imp fun _ _ h => h.namesIn_eq)
  · intro texts
    rw [CapabilitySet.parse_intercalate]
    exact ⟨CapabilitySet.parse_toList_parse texts, CapabilitySet.parse_toList_parse texts⟩
  · intro texts name
    rw [CapabilitySet.mem_parse]
    constructor
    · rintro ⟨text, htext, hname⟩
      obtain ⟨hnonempty, hsegment⟩ := CapabilitySet.mem_namesIn_iff.1 hname
      exact ⟨hnonempty, text, htext, hsegment⟩
    · rintro ⟨hnonempty, text, htext, hsegment⟩
      exact ⟨text, htext, CapabilitySet.mem_namesIn_iff.2 ⟨hnonempty, hsegment⟩⟩

/-- Two texts in another order and repeated, and a text with an ideographic space and a tab beside
its comma, read as the set of the two names in them. -/
theorem capability_texts_algebra_spaced :
    CapabilitySet.parse ["b", "a,b", "b"] = CapabilitySet.parse ["a,b", "b"] ∧
      CapabilitySet.parse ["a\u3000,\tb", "b "] = CapabilitySet.parse ["a,b", "b"] ∧
      (CapabilitySet.parse ["a,b", "b"]).toList = ["a", "b"] := by
  refine ⟨?_, ?_, by decide⟩
  · exact capability_texts_algebra.2.2.1 _ _ (by simp [or_comm])
  · have hblank : ∀ blanks : String, blanks.toList.all Text.isBlank = true →
        Text.AllBlank blanks.toList := fun blanks h => List.all_eq_true.1 h
    refine capability_texts_algebra.2.2.2.1 _ _ (.cons ?_ (.cons ?_ .nil))
    · have hbefore : CapabilitySet.Spaced "a,b" ("a" ++ "\u3000" ++ ",b") :=
        .add .refl (.inr (.inr (.inr (by decide)))) (hblank _ (by decide))
      show CapabilitySet.Spaced "a,b" ("a\u3000," ++ "\t" ++ "b")
      exact .add hbefore (.inr (.inr (.inl (by decide)))) (hblank _ (by decide))
    · show CapabilitySet.Spaced "b" ("b" ++ " " ++ "")
      exact .add .refl (.inr (.inl rfl)) (hblank _ (by decide))

end ContractAdmission
