import ContractAdmission.Proofs.FlagInFront

/-!
# Capability options on a command line

A word `--capabilities=TEXT` can stand in front of a command line, or almost anywhere in it.
What is asked for is then what is asked for without the word, with the text as one more
that grants capabilities.

* `Inserted` — a list with some items put in before its end mark.
* `Options.granting` — options with texts that grant capabilities.
* `Arguments.parse_grants_append` — such words in front of any command line.
* `Arguments.parse_of_inserted` — such words anywhere in a command line, as long as it is
  accepted with them and without them.
-/

namespace ContractAdmission
namespace Cli

/-- A list with items put in, each made of a text, but none after the first item that ends
the list. -/
inductive Inserted {α : Type} (make : String → α) (ends : α → Prop) :
    List String → List α → List α → Prop
  | rest (words : List α) : Inserted make ends [] words words
  | keep {word : α} {texts : List String} {words plain : List α} (hopen : ¬ ends word)
      (later : Inserted make ends texts words plain) :
      Inserted make ends texts (word :: words) (word :: plain)
  | insert {text : String} {texts : List String} {words plain : List α}
      (later : Inserted make ends texts words plain) :
      Inserted make ends (text :: texts) (make text :: words) plain

namespace Inserted

variable {α : Type} {make : String → α} {ends : α → Prop} {texts : List String}
  {words plain : List α}

/-- Items can be put in front. -/
theorem append (texts : List String) (plain : List α) :
    Inserted make ends texts (texts.map make ++ plain) plain := by
  induction texts with
  | nil => exact .rest plain
  | cons text rest ih => exact .insert ih

theorem eq_of_nil (h : Inserted make ends texts words []) : words = texts.map make := by
  generalize hplain : ([] : List α) = plain at h
  induction h with
  | rest words => exact hplain.symm
  | keep hopen later ih => cases hplain
  | insert later ih => rw [List.map_cons, ih hplain]

/-- An item that was there has some of the new ones before it, and the others behind it,
unless it ends the list. -/
theorem split {first : α} (h : Inserted make ends texts words (first :: plain)) :
    ∃ front back later, texts = front ++ back ∧ words = front.map make ++ first :: later ∧
      Inserted make ends back later plain ∧ (ends first → back = [] ∧ later = plain) := by
  generalize hwhole : first :: plain = whole at h
  induction h with
  | rest words =>
      subst hwhole
      exact ⟨[], [], plain, rfl, rfl, .rest plain, fun _ => ⟨rfl, rfl⟩⟩
  | keep hopen later ih =>
      obtain ⟨rfl, rfl⟩ := List.cons.inj hwhole
      exact ⟨[], _, _, rfl, rfl, later, fun hends => absurd hends hopen⟩
  | @insert text texts words plain later ih =>
      obtain ⟨front, back, rest, rfl, rfl, hrest, hends⟩ := ih hwhole
      exact ⟨text :: front, back, rest, rfl, rfl, hrest, hends⟩

end Inserted

/-- The word that grants the capabilities in a text. -/
def grantWord (text : String) : String := "--capabilities=" ++ text

/-- The value that the option has in this word.  The separator is none. -/
def grantValue (text : String) : Option String := (Use.ofText .capabilities text).value

theorem grantValue_of_ne {text : String} (h : text ≠ separatorText) :
    grantValue text = some text := by
  simp [grantValue, Use.ofText, h]

/-- The word that grants capabilities with what it is. -/
def grantEntry (text : String) : String × Word :=
  (grantWord text, .option .capabilities (.value text.toList))

/-- No option has an equals sign in its name. -/
theorem Opt.ofName?_of_equals {name : String} (h : '=' ∈ name.toList) : Opt.ofName? name = none := by
  have hnames : ∀ entry ∈ Opt.named, '=' ∉ entry.1.toList := by decide
  refine List.lookup_eq_none_iff.2 fun entry hentry => ?_
  refine bne_iff_ne.2 ?_
  rintro rfl
  exact hnames entry hentry h

/-- A name and an equals sign are an option with what follows as its value. -/
theorem Word.classify_equals (name : String) (opt : Opt) (hopt : Opt.ofName? name = some opt)
    (hlong : isLong name.toList = true) (hequals : '=' ∉ name.toList) (text : String) :
    classify (name ++ "=" ++ text) = .ok (.option opt (.value text.toList)) := by
  have hchars : (name ++ "=" ++ text).toList = name.toList ++ '=' :: text.toList := by simp
  have hkept : ∀ c ∈ name.toList, decide (c ≠ '=') = true := by
    intro c hc
    exact decide_eq_true fun hsame => hequals (hsame ▸ hc)
  have hwhole : Opt.ofName? (name ++ "=" ++ text) = none :=
    Opt.ofName?_of_equals (by simp [hchars])
  have hseparator : name ++ "=" ++ text ≠ separatorText := by
    intro hsame
    have hmem : '=' ∈ separatorText.toList := by simp [← hsame]
    exact absurd hmem (by decide)
  have hsplit : splitEquals (name.toList ++ '=' :: text.toList) =
      (name.toList, some text.toList) := by
    rw [splitEquals, List.dropWhile_append_of_pos hkept, List.takeWhile_append_of_pos hkept]
    simp
  obtain ⟨rest, hrest⟩ := List.isPrefixOf_iff_prefix.1 hlong
  calc
    classify (name ++ "=" ++ text) = ofDashed (name ++ "=" ++ text) := by
      unfold classify
      rw [hchars, ← hrest]
      exact if_neg hseparator
    _ = .ok (.option opt (.value text.toList)) := by
      unfold ofDashed
      simp [hchars, hsplit, hwhole, hopt, attachedTo, hlong]

theorem Word.classify_grantWord (text : String) :
    Word.classify (grantWord text) = .ok (grantEntry text).2 :=
  classify_equals "--capabilities" .capabilities (by decide) (by decide) (by decide) text

/-- Only the separator is one. -/
theorem Word.classify_ne_separator {word : String} (h : word ≠ separatorText) :
    Word.classify word ≠ .ok .separator := by
  unfold classify ofDashed other
  split
  · rw [if_neg h]
    dsimp only
    repeat' split
    all_goals simp
  · simp

/-- The words after one that is not the separator are what they are anywhere. -/
theorem Word.classifyAll_cons {word : String} {kind : Word} (hword : classify word = .ok kind)
    (hopen : kind ≠ .separator) (rest : List String) :
    classifyAll (word :: rest) = (classifyAll rest).map ((word, kind) :: ·) := by
  rw [classifyAll, hword]
  cases kind with
  | separator => exact absurd rfl hopen
  | _ => rfl

theorem Word.classifyAll_grantWord_cons (text : String) (rest : List String) :
    classifyAll (grantWord text :: rest) = (classifyAll rest).map (grantEntry text :: ·) :=
  classifyAll_cons (classify_grantWord text) (by simp [grantEntry]) rest

/-- Words that are put in before the separator do not change what the others are. -/
theorem Word.classifyAll_of_inserted {texts words plain : List String}
    (h : Inserted grantWord (· = separatorText) texts words plain)
    {classified : List (String × Word)} (hplain : classifyAll plain = .ok classified) :
    ∃ more, classifyAll words = .ok more ∧
      Inserted grantEntry (·.2 = .separator) texts more classified := by
  induction h generalizing classified with
  | rest words => exact ⟨classified, hplain, .rest classified⟩
  | @keep word texts words plain hopen later ih =>
      cases hword : classify word with
      | error error =>
          rw [classifyAll, hword] at hplain
          cases hplain
      | ok kind =>
          -- Words behind a separator are arguments, so it matters that this is none.
          have hkind : kind ≠ .separator := by
            rintro rfl
            exact classify_ne_separator hopen hword
          rw [classifyAll_cons hword hkind] at hplain ⊢
          cases hrest : classifyAll plain with
          | error error =>
              rw [hrest] at hplain
              cases hplain
          | ok others =>
              rw [hrest] at hplain
              cases hplain
              obtain ⟨more, hmore, hinserted⟩ := ih hrest
              rw [hmore]
              exact ⟨(word, kind) :: more, rfl, .keep hkind hinserted⟩
  | @insert text texts words plain later ih =>
      obtain ⟨more, hmore, hinserted⟩ := ih hplain
      rw [classifyAll_grantWord_cons, hmore]
      exact ⟨grantEntry text :: more, rfl, .insert hinserted⟩

namespace Options

/-- Options with values of the one for capabilities, before the values that they have. -/
def granting (values : List (Option String)) (options : Options) : Options :=
  match values with
  | [] => options
  | values => { options with capabilities := some (values ++ options.capabilities.getD []) }

/-- It does not matter when values are put before the others. -/
theorem steady_granting (values : List (Option String)) : Steady (granting values) := by
  intro options use
  cases values with
  | nil =>
      change options.set use = _
      cases options.set use <;> rfl
  | cons value rest =>
      obtain ⟨used, text⟩ := use
      cases used with
      | capabilities => simp [granting, set, Except.map]
      | _ => rfl

theorem granting_append (values others : List (Option String)) (options : Options) :
    (granting others options).granting values = granting (values ++ others) options := by
  cases values with
  | nil => rfl
  | cons value rest =>
      cases others with
      | nil => rw [List.append_nil]; rfl
      | cons other later => simp [granting]

/-- One more use of the option puts its value behind the others. -/
theorem take_granting {options : Options} (hnone : options.capabilities = none)
    (values : List (Option String)) (value : Option String) :
    (options.granting values).take ⟨.capabilities, value⟩ =
      .ok (options.granting (values ++ [value])) := by
  have hset : (options.granting values).set ⟨.capabilities, value⟩ =
      .ok (options.granting (values ++ [value])) := by
    cases values with
    | nil => simp [granting, set, hnone]
    | cons first rest => simp [granting, set, hnone]
  rw [← hset]
  cases value <;> rfl

end Options

namespace Draft

variable {draft : Draft}

/-- A word that grants capabilities adds its value to those that there are. -/
theorem read_grantEntry (hnone : draft.options.capabilities = none)
    (values : List (Option String)) (text : String) (rest : List (String × Word)) :
    (draft.mapOptions (Options.granting values)).read (grantEntry text :: rest) =
      (draft.mapOptions (Options.granting (values ++ [grantValue text]))).read rest := by
  have hword : Expansion.ofWord .capabilities (.value text.toList) =
      .ok { uses := [⟨.capabilities, grantValue text⟩] } := by
    simp [Expansion.ofWord, Expansion.attached, Opt.takesValue, grantValue, Use.ofText]
  have htake : (draft.mapOptions (Options.granting values)).take
        { uses := [⟨.capabilities, grantValue text⟩] } =
      .ok (draft.mapOptions (Options.granting (values ++ [grantValue text]))) := by
    have hoptions := Options.take_granting hnone values (grantValue text)
    simp only [take, mapOptions, Options.takeAll, List.foldlM_cons, List.foldlM_nil, hoptions]
    rfl
  rw [grantEntry, Draft.read]
  simp only [hword, htake]

theorem read_grantEntries (hnone : draft.options.capabilities = none)
    (values : List (Option String)) (texts : List String) (rest : List (String × Word)) :
    (draft.mapOptions (Options.granting values)).read (texts.map grantEntry ++ rest) =
      (draft.mapOptions (Options.granting (values ++ texts.map grantValue))).read rest := by
  induction texts generalizing values with
  | nil => rw [List.map_nil, List.map_nil, List.nil_append, List.append_nil]
  | cons text texts ih =>
      rw [List.map_cons, List.cons_append, read_grantEntry hnone, ih, List.map_cons,
        List.append_assoc, List.singleton_append]

/-- What an expansion says sets nothing aside. -/
theorem unrecognized_of_take {next : Draft} {expansion : Expansion}
    (h : draft.take expansion = .ok next) : next.unrecognized = draft.unrecognized := by
  unfold take at h
  cases htake : draft.options.takeAll expansion.uses with
  | error stop =>
      rw [htake] at h
      cases h
  | ok options =>
      rw [htake] at h
      cases h
      rfl

/-- Words that were set aside stay aside. -/
theorem unrecognized_prefix_of_read {final : Draft} {words : List (String × Word)}
    (h : draft.read words = .ok final) : draft.unrecognized <+: final.unrecognized := by
  fun_induction Draft.read draft words with
  | case1 draft =>
      cases h
      exact List.prefix_rfl
  | case2 draft word next later hpath ih => exact ih h
  | case3 draft word rest hrest hpath ih => exact ih h
  | case4 draft word path rest hpath ih => exact (List.prefix_append _ _).trans (ih h)
  | case5 draft word next later hpath ih => exact ih h
  | case6 draft word rest hrest ih => exact (List.prefix_append _ _).trans (ih h)
  | case7 draft word rest ih => exact (List.prefix_append _ _).trans (ih h)
  | case8 => cases h
  | case9 => cases h
  | case10 draft word opt attached expansion hword rest hpending next htake ih =>
      exact unrecognized_of_take htake ▸ ih h
  | case11 => cases h
  | case12 draft word opt attached expansion hword last value later hpending next htake ih =>
      exact unrecognized_of_take htake ▸ ih h
  | case13 => cases h

/-- Without capabilities in the end there are none before. -/
theorem capabilities_none_of_read {final : Draft} {words : List (String × Word)}
    (h : draft.read words = .ok final) (hnone : final.options.capabilities = none) :
    draft.options.capabilities = none := by
  -- A use that comes last shows in the end.
  have hsets := Options.sets_of_takeAll .capabilities (takeAll_usesIn h)
  cases hlast : ((usesIn words).filter fun use => use.opt = Field.capabilities.opt).getLast? with
  | none => simpa [hlast, Options.sets, hnone] using hsets
  | some use => simp [hlast, Options.sets, hnone, Field.isSetBy] at hsets

theorem not_read_reject {final : Draft} {word : String} {words : List (String × Word)}
    (h : (draft.reject [word]).read words = .ok final) (hall : final.unrecognized = []) :
    False := by
  have hkept := unrecognized_prefix_of_read h
  rw [hall, List.prefix_nil] at hkept
  simp [reject] at hkept

/-- The first argument is the path. -/
theorem read_path (f : Options → Options) {word : String} {rest : List (String × Word)}
    (hpath : draft.path = none) (hrest : ∀ next later, rest ≠ (next, .separator) :: later) :
    (draft.mapOptions f).read ((word, .argument) :: rest) =
      ({ draft with path := some word }.mapOptions f).read rest := by
  rw [Draft.read.eq_def]
  simp only [mapOptions_path, hpath]
  rfl

/-- The separator behind the path goes with it. -/
theorem read_path_separator (f : Options → Options) {word next : String}
    {later : List (String × Word)} (hpath : draft.path = none) :
    (draft.mapOptions f).read ((word, .argument) :: (next, .separator) :: later) =
      ({ draft with path := some word }.mapOptions f).read later := by
  rw [Draft.read.eq_def]
  simp only [mapOptions_path, hpath]
  rfl

/-- The separator is set aside where the path is known. -/
theorem read_separator (f : Options → Options) {word path : String}
    {rest : List (String × Word)} (hpath : draft.path = some path) :
    (draft.mapOptions f).read ((word, .separator) :: rest) =
      ((draft.mapOptions f).reject [word]).read rest := by
  rw [Draft.read.eq_def]
  simp only [mapOptions_path, hpath]

/-- The words that are put in before a word are read before it. -/
theorem read_inserted_split {texts : List String} {words plain : List (String × Word)}
    {first : String × Word} (hnone : draft.options.capabilities = none)
    (h : Inserted grantEntry (·.2 = .separator) texts words (first :: plain))
    (values : List (Option String)) :
    ∃ (before : List (Option String)) (back : List String) (later : List (String × Word)),
      values ++ texts.map grantValue = before ++ back.map grantValue ∧
      (draft.mapOptions (Options.granting values)).read words =
        (draft.mapOptions (Options.granting before)).read (first :: later) ∧
      Inserted grantEntry (·.2 = .separator) back later plain ∧
      (first.2 = .separator → back = [] ∧ later = plain) := by
  obtain ⟨front, back, later, rfl, rfl, hlater, hends⟩ := h.split
  exact ⟨values ++ front.map grantValue, back, later, by simp,
    read_grantEntries hnone values front _, hlater, hends⟩

/-- What is read of words with others put in before the separator, as long as nothing is
set aside. -/
theorem read_of_inserted {final final' : Draft} {texts : List String}
    {words plain : List (String × Word)}
    (h : Inserted grantEntry (·.2 = .separator) texts words plain)
    (hplain : draft.read plain = .ok final) (hnone : final.options.capabilities = none)
    (values : List (Option String))
    (hwords : (draft.mapOptions (Options.granting values)).read words = .ok final')
    (hall : final'.unrecognized = []) :
    final' = final.mapOptions (Options.granting (values ++ texts.map grantValue)) := by
  have hfirst := capabilities_none_of_read hplain hnone
  fun_induction Draft.read draft plain generalizing words texts values
  case case1 =>
    obtain rfl := h.eq_of_nil
    rw [← List.append_nil (texts.map grantEntry), read_grantEntries hfirst] at hwords
    cases hplain
    cases hwords
    rfl
  case case8 | case9 | case11 | case13 => cases hplain
  all_goals
    -- The new words before the next one are read first, and only raise the values.
    obtain ⟨before, back, others, hvalues, hread, hback, hends⟩ :=
      read_inserted_split hfirst h values
    rw [hread] at hwords
    rw [hvalues]
  case case2 draft word next later hpath ih =>
    obtain ⟨between, rest, last, rfl, rfl, -, hends⟩ := hback.split
    obtain ⟨rfl, rfl⟩ := hends rfl
    cases between with
    | nil =>
        rw [List.map_nil, List.nil_append, read_path_separator _ hpath] at hwords
        exact ih (.rest _) hplain _ hwords hfirst
    | cons text more =>
        -- A word between the path and the separator keeps these apart.
        have hknown : ({ draft with path := some word } : Draft).options.capabilities = none :=
          hfirst
        rw [read_path _ hpath (by simp [grantEntry]), read_grantEntries hknown,
          read_separator _ rfl] at hwords
        exact (not_read_reject hwords hall).elim
  case case3 draft word rest hrest hpath ih =>
    -- What follows the path is no separator with the new words either.
    have hothers : ∀ next later, others ≠ (next, .separator) :: later := by
      rintro next later rfl
      cases hback with
      | rest => exact hrest next later rfl
      | keep hopen => exact hopen rfl
    rw [read_path _ hpath hothers] at hwords
    exact ih hback hplain _ hwords hfirst
  case case4 draft word path rest hpath ih =>
    rw [Draft.read.eq_def] at hwords
    simp only [mapOptions_path, hpath] at hwords
    exact (not_read_reject hwords hall).elim
  case case5 draft word next later hpath ih =>
    obtain ⟨rfl, rfl⟩ := hends rfl
    rw [Draft.read.eq_def] at hwords
    simp only [mapOptions_path, hpath] at hwords
    exact ih (.rest _) hplain _ hwords hfirst
  case case6 draft word rest hrest ih =>
    obtain ⟨rfl, rfl⟩ := hends rfl
    rw [Draft.read.eq_def] at hwords
    simp only [mapOptions_path] at hwords
    exact (not_read_reject hwords hall).elim
  case case7 draft word rest ih =>
    rw [Draft.read.eq_def] at hwords
    exact (not_read_reject hwords hall).elim
  case case10 draft word opt attached expansion hword rest hpending next htake ih =>
    rw [Draft.read.eq_def] at hwords
    simp only [hword, hpending, take_mapOptions (Options.steady_granting _), htake] at hwords
    exact ih hback hplain _ hwords (capabilities_none_of_read hplain hnone)
  case case12 draft word opt attached expansion hword last value later hpending next htake ih =>
    obtain ⟨between, rest, last, rfl, rfl, hlast, -⟩ := hback.split
    cases between with
    | nil =>
        rw [List.map_nil, List.nil_append, Draft.read.eq_def] at hwords
        simp only [hword, hpending, take_mapOptions (Options.steady_granting _), htake] at hwords
        exact ih hlast hplain _ hwords (capabilities_none_of_read hplain hnone)
    | cons text more =>
        -- An option takes no other option as its value.
        rw [Draft.read.eq_def] at hwords
        simp [hword, hpending, grantEntry] at hwords

end Draft

/-- Arguments with values of the option for capabilities, before the values that they
have. -/
def Arguments.granting (values : List (Option String)) (arguments : Arguments) : Arguments :=
  { arguments with options := arguments.options.granting values }

namespace Arguments

/-- A word that grants capabilities in front of a command line puts its value before those
that there are, and changes nothing else. -/
theorem parse_grantWord_cons (text : String) (words : List String) :
    parse (grantWord text :: words) = (parse words).map (granting [grantValue text]) := by
  unfold parse
  rw [Word.classifyAll_grantWord_cons]
  cases Word.classifyAll words with
  | error error => rfl
  | ok classified =>
      have hread : ({} : Draft).read (grantEntry text :: classified) =
          (({} : Draft).read classified).map
            (Draft.mapOptions (Options.granting [grantValue text])) := by
        rw [← Draft.read_mapOptions (Options.steady_granting _)]
        have hnone : ({} : Draft).options.capabilities = none := rfl
        exact Draft.read_grantEntry hnone [] text classified
      simp only [Except.map]
      rw [hread]
      cases ({} : Draft).read classified with
      | error stop => rfl
      | ok draft => exact Draft.finish_mapOptions draft

theorem parse_grants_append (texts : List String) (plain : List String) :
    parse (texts.map grantWord ++ plain) =
      (parse plain).map (granting (texts.map grantValue)) := by
  induction texts with
  | nil =>
      rw [List.map_nil, List.nil_append]
      cases parse plain <;> rfl
  | cons text rest ih =>
      rw [List.map_cons, List.cons_append, parse_grantWord_cons, ih, List.map_cons]
      cases parse plain with
      | error stop => rfl
      | ok arguments =>
          simp only [Except.map, granting, Options.granting_append, List.singleton_append]

/-- Words that grant capabilities anywhere in a command line that is accepted with them and
without them, and names no capabilities otherwise, add their values and change nothing
else. -/
theorem parse_of_inserted {texts words plain : List String} {arguments arguments' : Arguments}
    (h : Inserted grantWord (· = separatorText) texts words plain)
    (hplain : parse plain = .ok arguments) (hnone : arguments.options.capabilities = none)
    (hwords : parse words = .ok arguments') :
    arguments' = arguments.granting (texts.map grantValue) := by
  unfold parse at hplain hwords
  cases hclassified : Word.classifyAll plain with
  | error error =>
      rw [hclassified] at hplain
      cases hplain
  | ok classified =>
      obtain ⟨more, hmore, hinserted⟩ := Word.classifyAll_of_inserted h hclassified
      rw [hclassified] at hplain
      rw [hmore] at hwords
      dsimp only at hplain hwords
      split at hplain
      · cases hplain
      · rename_i final hfinal
        split at hwords
        · cases hwords
        · rename_i final' hfinal'
          rw [Draft.options_of_finish hplain] at hnone
          have hall : final'.unrecognized = [] := by
            unfold Draft.finish at hwords
            split at hwords
            · cases hwords
            · assumption
            · cases hwords
          have hsame := Draft.read_of_inserted hinserted hfinal hnone [] hfinal' hall
          rw [hsame, Draft.finish_mapOptions, hplain] at hwords
          cases hwords
          rfl

example : parse ["-v", "--capabilities=staking", "a.wasm", "--capabilities=--"] =
    .ok ⟨"a.wasm", { capabilities := some [some "staking", none], verbose := true }⟩ := by
  decide +kernel

end Arguments
end Cli
end ContractAdmission
