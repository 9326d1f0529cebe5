import ContractAdmission.Proofs.CapabilityOptions
import Mathlib.Data.List.Induction

/-!
# Command lines of phrases

A phrase is a word that is an option with all that belongs to it.  A command line of phrases
and one path is read phrase by phrase, wherever the path stands, and is accepted if each phrase
has a value that its option allows.  What it asks for is told by the phrases: all texts of the
option for capabilities, the last text of every other option that has a value, and which flags
occur.

* `Phrase.word` and `Spells` — how phrases are written.
* `Arguments.parse_of_spells` — such a command line is read as the uses of its phrases.
* `Options.exists_takeAll_iff` — when uses are accepted.
* `Options.eq_ofPhrases` — what accepted phrases ask for.
-/

namespace ContractAdmission
namespace Cli

/-- A word that is an option with all that belongs to it. -/
inductive Phrase where
  | capabilities (text : String)
  | hostVersion (text : String)
  | policy (text : String)
  | config (text : String)
  | json
  | verbose
  deriving DecidableEq, Repr

namespace Phrase

/-- The option of a phrase. -/
def opt : Phrase → Opt
  | .capabilities _ => .capabilities
  | .hostVersion _ => .hostVersion
  | .policy _ => .policy
  | .config _ => .config
  | .json => .json
  | .verbose => .verbose

/-- The text that a phrase has for its option. -/
def text? : Phrase → Option String
  | .capabilities text | .hostVersion text | .policy text | .config text => some text
  | .json | .verbose => none

/-- How a phrase is written. -/
def word : Phrase → String
  | .capabilities text => "--capabilities=" ++ text
  | .hostVersion text => "--host-version=" ++ text
  | .policy text => "--capability-policy=" ++ text
  | .config text => "--config=" ++ text
  | .json => "--json"
  | .verbose => "-v"

/-- The use of an option that a phrase is. -/
def use (phrase : Phrase) : Use :=
  match phrase.text? with
  | some text => .ofText phrase.opt text
  | none => { opt := phrase.opt }

/-- What a phrase is as a word. -/
def attached (phrase : Phrase) : Attached :=
  match phrase.text? with
  | some text => .value text.toList
  | none => .nothing

/-- A phrase as it is written, with what it is. -/
def entry (phrase : Phrase) : String × Word := (phrase.word, .option phrase.opt phrase.attached)

/-- The texts that phrases have for an option, from left to right. -/
def texts (opt : Opt) (phrases : List Phrase) : List String :=
  phrases.filterMap fun phrase => if phrase.opt = opt then phrase.text? else none

theorem texts_concat (opt : Opt) (phrases : List Phrase) (phrase : Phrase) :
    texts opt (phrases ++ [phrase]) =
      texts opt phrases ++ (if phrase.opt = opt then phrase.text? else none).toList := by
  rw [texts, List.filterMap_append, List.filterMap_cons, List.filterMap_nil]
  cases if phrase.opt = opt then phrase.text? else none <;> rfl

theorem classify_word (phrase : Phrase) :
    Word.classify phrase.word = .ok (.option phrase.opt phrase.attached) := by
  cases phrase with
  | capabilities text =>
      exact Word.classify_equals "--capabilities" .capabilities (by decide) (by decide) (by decide)
        text
  | hostVersion text =>
      exact Word.classify_equals "--host-version" .hostVersion (by decide) (by decide) (by decide)
        text
  | policy text =>
      exact Word.classify_equals "--capability-policy" .policy (by decide) (by decide) (by decide)
        text
  | config text =>
      exact Word.classify_equals "--config" .config (by decide) (by decide) (by decide) text
  | json => decide +kernel
  | verbose => decide +kernel

/-- A phrase comes to its use, and leaves no value to the next word. -/
theorem expansion (phrase : Phrase) :
    Expansion.ofWord phrase.opt phrase.attached = .ok { uses := [phrase.use] } := by
  cases phrase <;> simp [opt, attached, text?, use, Expansion.ofWord, Expansion.attached,
    Expansion.bare, Opt.takesValue]

end Phrase

/-- A command line is a path with phrases before it and after it. -/
def Spells (path : String) (phrases : List Phrase) (words : List String) : Prop :=
  ∃ before after, phrases = before ++ after ∧
    words = before.map Phrase.word ++ path :: after.map Phrase.word

/-! ### Reading phrases -/

theorem Word.classifyAll_phrases (phrases : List Phrase) (rest : List String) :
    classifyAll (phrases.map Phrase.word ++ rest) =
      (classifyAll rest).map (phrases.map Phrase.entry ++ ·) := by
  induction phrases with
  | nil => cases h : classifyAll rest <;> simp [h, Except.map]
  | cons phrase others ih =>
      have hopen : Word.option phrase.opt phrase.attached ≠ .separator := by simp
      rw [List.map_cons, List.cons_append, classifyAll_cons phrase.classify_word hopen, ih]
      cases classifyAll rest <;> rfl

/-- Phrases only set options. -/
theorem Draft.read_phrases (draft : Draft) (phrases : List Phrase)
    (rest : List (String × Word)) :
    draft.read (phrases.map Phrase.entry ++ rest) =
      match draft.options.takeAll (phrases.map Phrase.use) with
      | .error stop => .error stop
      | .ok options => ({ draft with options := options }).read rest := by
  induction phrases generalizing draft with
  | nil => rfl
  | cons phrase others ih =>
      rw [List.map_cons, List.cons_append, Phrase.entry, Draft.read]
      simp only [phrase.expansion]
      simp only [take, Options.takeAll, List.map_cons, List.foldlM_cons, List.foldlM_nil]
      cases draft.options.take phrase.use with
      | error stop => rfl
      | ok options => exact ih { draft with options := options }

/-- A command line of phrases and a path is accepted as its phrases are, one after the other,
wherever the path stands. -/
theorem Arguments.parse_of_spells {path : String} {phrases : List Phrase} {words : List String}
    (hpath : path.toList.head? ≠ some '-') (h : Spells path phrases words) :
    parse words = (({} : Options).takeAll (phrases.map Phrase.use)).map fun options =>
      ⟨path, options⟩ := by
  obtain ⟨before, after, rfl, rfl⟩ := h
  have hafter : Word.classifyAll (after.map Phrase.word) = .ok (after.map Phrase.entry) := by
    have hall := Word.classifyAll_phrases after []
    simpa [Word.classifyAll, Except.map] using hall
  have hclassified : Word.classifyAll (before.map Phrase.word ++ path :: after.map Phrase.word) =
      .ok (before.map Phrase.entry ++ (path, .argument) :: after.map Phrase.entry) := by
    rw [Word.classifyAll_phrases,
      Word.classifyAll_cons (Word.classify_of_head?_ne hpath) (by simp), hafter]
    rfl
  have hnext : ∀ next later, after.map Phrase.entry ≠ (next, .separator) :: later := by
    intro next later
    cases after <;> simp [Phrase.entry]
  unfold parse
  rw [hclassified]
  dsimp only
  rw [Draft.read_phrases, List.map_append]
  unfold Options.takeAll
  rw [List.foldlM_append]
  cases hbefore : (before.map Phrase.use).foldlM Options.take ({} : Options) with
  | error stop => rfl
  | ok middle =>
      -- The path is read after some of the phrases, and changes nothing for the others.
      have hnone : ({ options := middle } : Draft).path = none := rfl
      have hread : Draft.read { options := middle } ((path, .argument) :: after.map Phrase.entry) =
          Draft.read { path := some path, options := middle } (after.map Phrase.entry) :=
        Draft.read_path id hnone hnext
      have hrest := Draft.read_phrases { path := some path, options := middle } after []
      rw [List.append_nil] at hrest
      dsimp only
      rw [hread, hrest]
      change _ = Except.map _ (middle.takeAll (after.map Phrase.use))
      cases middle.takeAll (after.map Phrase.use) with
      | error stop => rfl
      | ok options => rfl

/-! ### What phrases ask for -/

/-- A use that is accepted: it does not ask for help, and its option allows the value that it
has. -/
def Use.Allowed (use : Use) : Prop :=
  use.opt ≠ .help ∧ ∀ value, use.value = some value → use.opt.allows value = true

namespace Options

theorem exists_take_iff (options : Options) {use : Use} :
    (∃ next, options.take use = .ok next) ↔ use.Allowed := by
  obtain ⟨opt, value⟩ := use
  have hset : (∃ next, options.set ⟨opt, value⟩ = .ok next) ↔ opt ≠ .help := by
    cases opt <;> simp [set]
  cases value with
  | none => simpa [take, Use.Allowed] using hset
  | some value =>
      by_cases hallowed : opt.allows value = true
      · simpa [take, Use.Allowed, hallowed] using hset
      · simp [take, Use.Allowed, hallowed]

/-- Uses are accepted one after the other if each of them is. -/
theorem exists_takeAll_iff (options : Options) {uses : List Use} :
    (∃ final, options.takeAll uses = .ok final) ↔ ∀ use ∈ uses, use.Allowed := by
  induction uses generalizing options with
  | nil => exact ⟨fun _ use huse => absurd huse List.not_mem_nil, fun _ => ⟨options, rfl⟩⟩
  | cons use rest ih =>
      rw [List.forall_mem_cons, ← exists_take_iff options]
      simp only [takeAll, List.foldlM_cons] at ih ⊢
      cases options.take use with
      | error stop =>
          constructor
          · rintro ⟨final, h⟩
            cases h
          · rintro ⟨⟨next, h⟩, -⟩
            cases h
      | ok next => exact (ih next).trans ⟨fun h => ⟨⟨next, rfl⟩, h⟩, And.right⟩

/-- The value that a text is for an option.  The separator is none. -/
def valueOf (text : String) : Option String := if text = separatorText then none else some text

/-- What phrases ask for: all texts that grant capabilities, the last value of each other option,
and whether a flag occurs. -/
def ofPhrases (phrases : List Phrase) : Options where
  capabilities :=
    match Phrase.texts .capabilities phrases with
    | [] => none
    | texts => some (texts.map grantValue)
  hostVersion := (Phrase.texts .hostVersion phrases).getLast?.bind valueOf
  policyName := (Phrase.texts .policy phrases).getLast?.bind valueOf
  config := (Phrase.texts .config phrases).getLast?.bind valueOf
  json := .json ∈ phrases
  verbose := .verbose ∈ phrases

/-- One more phrase changes what its option asks for, and nothing else. -/
theorem set_use_ofPhrases (phrases : List Phrase) (phrase : Phrase) :
    (ofPhrases phrases).set phrase.use = .ok (ofPhrases (phrases ++ [phrase])) := by
  cases phrase with
  | capabilities text =>
      -- The first text for capabilities takes the place of none.
      cases hearlier : Phrase.texts .capabilities phrases <;>
        simp [ofPhrases, Phrase.use, Phrase.text?, Phrase.opt, set, Use.ofText, Phrase.texts_concat,
          grantValue, hearlier]
  | _ =>
      simp [ofPhrases, Phrase.use, Phrase.text?, Phrase.opt, set, Use.ofText, Phrase.texts_concat,
        valueOf]

/-- Accepted phrases ask for what is told by them. -/
theorem eq_ofPhrases {phrases : List Phrase} {options : Options}
    (h : ({} : Options).takeAll (phrases.map Phrase.use) = .ok options) :
    options = ofPhrases phrases := by
  induction phrases using List.reverseRecOn generalizing options with
  | nil =>
      cases h
      rfl
  | append_singleton phrases phrase ih =>
      rw [List.map_append, takeAll, List.foldlM_append] at h
      cases hearlier : (phrases.map Phrase.use).foldlM take ({} : Options) with
      | error stop =>
          rw [hearlier] at h
          cases h
      | ok middle =>
          rw [hearlier] at h
          obtain rfl := ih hearlier
          have hlast : (ofPhrases phrases).take phrase.use = .ok options := by
            change (ofPhrases phrases).take phrase.use >>= pure = .ok options at h
            rwa [bind_pure] at h
          cases (set_of_take hlast).symm.trans (set_use_ofPhrases phrases phrase)
          rfl

end Options
end Cli
end ContractAdmission
