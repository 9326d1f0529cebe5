import ContractAdmission.Proofs.Yaml.Quoted
import ContractAdmission.Yaml.TokenStream

/-!
# Finding the tokens of JSON text

Where a token of JSON text begins and what is found there.  Inside brackets nothing depends on
how a text is indented; so the spaces and line ends between tokens are passed over, and the
character behind them says which token it is.

* `IsGap` — what stands between two tokens.
* `Calm` — what every state between two tokens has: no fault, no open block collection, and no
  key that has to be one.
* `find_runs` — behind a gap a token is found by the action for its first character.
* `Calm.opening_runs`, `Calm.closing_runs`, `Calm.entry_runs`, `Calm.string_runs`,
  `Calm.colon_runs`, `Calm.end_runs` — what each of these actions does.
-/

namespace ContractAdmission
namespace Yaml

/-! ### Between tokens -/

namespace Cursor

/-- The next character, or the NUL that the end of a document reads as. -/
def ahead (cursor : Cursor) : Char := cursor.rest.headD '\x00'

end Cursor

namespace Lexer

variable {cursor : Cursor}

theorem ahead_runs (h : cursor.fault = none) : Runs peek cursor cursor.ahead cursor := by
  unfold Cursor.ahead
  cases hrest : cursor.rest with
  | nil =>
      refine Runs.bind (Runs.get cursor) ?_
      rw [hrest]
      exact Runs.bind (meetFault_runs h) (Runs.pure _ cursor)
  | cons c rest => exact peek_runs hrest

theorem skipWhile_runs (h : cursor.fault = none) {p : Char → Bool} {front back : List Char}
    (hrest : cursor.rest = front ++ back) (hfront : ∀ c ∈ front, p c = true)
    (hback : ∀ c, back.head? = some c → p c = false) :
    Runs (skipWhile p) cursor ⟨⟩ (cursor.skip front.length) :=
  Runs.bind (takeWhile_runs h hrest hfront hback) (Runs.pure _ _)

theorem lineBreak_feed (h : cursor.fault = none) {rest : List Char}
    (hrest : cursor.rest = '\n' :: rest) : Runs lineBreak cursor ['\n'] cursor.next :=
  Runs.bind (peek_runs hrest)
    (Runs.ifTrue (Or.inl rfl) (Runs.bind (advance_runs h 1) (Runs.pure _ _)))

theorem lineBreak_none (h : cursor.fault = none) (hahead : isBreak cursor.ahead = false) :
    Runs lineBreak cursor [] cursor := by
  have hnot : ¬ (cursor.ahead = '\n' ∨ cursor.ahead = '\u0085') := by
    rintro (heq | heq) <;> rw [heq] at hahead <;> exact absurd hahead (by decide)
  exact Runs.bind (ahead_runs h) (Runs.ifFalse hnot
    (Runs.ifFalse (Bool.not_eq_true _ ▸ hahead) (Runs.pure _ _)))

end Lexer

namespace Tokenizer

variable {t : Tokenizer}

/-- The state at another place. -/
def withCursor (t : Tokenizer) (cursor : Cursor) : Tokenizer := { t with cursor := cursor }

@[simp] theorem cursor_withCursor (t : Tokenizer) (cursor : Cursor) :
    (t.withCursor cursor).cursor = cursor := rfl

theorem lex_runs {α : Type} {lexer : Lexer α} {a : α} {cursor : Cursor}
    (h : Runs lexer t.cursor a cursor) :
    Runs (lex lexer) t a (t.withCursor cursor) := by
  have hlifted : Runs (liftM (lexer t.cursor) : Tokenizing (α × Cursor)) t (a, cursor) t := by
    rw [show lexer t.cursor = .ok (a, cursor) from h]
    rfl
  exact Runs.bind (Runs.get t) (Runs.bind hlifted (Runs.bind (Runs.modified _ t) (Runs.pure a _)))

theorem inFlow_of_pos (h : 0 < t.outer.length) : t.inFlow = true := by
  cases houter : t.outer with
  | nil => simp [houter] at h
  | cons start outer => simp [inFlow, houter]

/-- What stands between two tokens: spaces and line ends. -/
def IsGap (gap : List Char) : Prop := ∀ c ∈ gap, c = ' ' ∨ c = '\n'

instance : DecidablePred IsGap := List.decidableBAll fun c => c = ' ' ∨ c = '\n'

theorem isGap_nil : IsGap [] := by decide

/-- The state behind a gap.  A key may begin on a new line, where no bracket is open. -/
def passed (t : Tokenizer) (gap : List Char) : Tokenizer :=
  { t with
    cursor := t.cursor.skip gap.length
    keyAllowed := t.keyAllowed || (!t.inFlow && gap.contains '\n') }

theorem keyAllowed_passed (gap : List Char) (h : t.keyAllowed = true) :
    (t.passed gap).keyAllowed = true := by
  rw [passed, h, Bool.true_or]

/-- Nothing but the place changes behind spaces. -/
theorem passed_of_spaces {spaces : List Char} (h : ∀ c ∈ spaces, c = ' ') :
    t.passed spaces = t.withCursor (t.cursor.skip spaces.length) := by
  have hline : spaces.contains '\n' = false := by
    rw [← Bool.not_eq_true, List.contains_iff_mem]
    exact fun hmem => absurd (h '\n' hmem) (by decide)
  rw [passed, hline, Bool.and_false, Bool.or_false]
  rfl

/-- The state behind a line end. -/
def onNewLine (t : Tokenizer) (cursor : Cursor) : Tokenizer :=
  { t with cursor := cursor, keyAllowed := t.keyAllowed || !t.inFlow }

theorem passed_onNewLine (spaces rest : List Char) :
    (t.onNewLine (t.cursor.skip spaces.length).next).passed rest =
      t.passed (spaces ++ '\n' :: rest) := by
  have hskip : t.cursor.skip (spaces ++ '\n' :: rest).length =
      (t.cursor.skip spaces.length).next.skip rest.length := by
    rw [List.length_append, Cursor.skip_add]
    rfl
  have hline : (spaces ++ '\n' :: rest).contains '\n' = true := by simp
  rw [passed, passed, hskip, hline, Bool.and_true]
  simp only [onNewLine, inFlow]
  cases t.outer.isEmpty <;> simp

/-- The characters at which a token of JSON text begins, and the end. -/
def indicators : List Char := ['\x00', '[', '{', ']', '}', ',', ':', '"']

theorem ne_of_mem_indicators {c other : Char} (h : c ∈ indicators) (hother : other ∉ indicators) :
    c ≠ other :=
  fun heq => hother (heq ▸ h)

theorem isBreak_of_mem_indicators : ∀ c ∈ indicators, isBreak c = false := by
  have hall : indicators.all (fun c => !isBreak c) = true := by decide
  simpa using hall

/-- A gap is passed over up to the token behind it. -/
theorem skipToToken_runs {bound : Nat} {gap back : List Char} (h : t.cursor.fault = none)
    (hgap : IsGap gap) (hrest : t.cursor.rest = gap ++ back)
    (hback : back.headD '\x00' ∈ indicators) (hbound : gap.length < bound) :
    Runs (skipToToken bound) t ⟨⟩ (t.passed gap) := by
  induction bound generalizing t gap with
  | zero => omega
  | succ bound ih =>
      obtain ⟨spaces, tail, rfl, hspaces, htail⟩ := exists_split (· = ' ') gap
      rw [List.append_assoc] at hrest
      have hafter := Cursor.rest_skip hrest
      have hfault : (t.cursor.skip spaces.length).fault = none := by rw [Cursor.fault_skip, h]
      have hblank : ∀ c ∈ spaces, (c == ' ') = true := fun c hc => beq_iff_eq.2 (hspaces c hc)
      cases tail with
      | nil =>
          have hahead : (t.cursor.skip spaces.length).ahead ∈ indicators := by
            rwa [Cursor.ahead, hafter]
          have hstop : ∀ c, ([] ++ back).head? = some c → (c == ' ') = false := by
            intro c hc
            rw [List.nil_append] at hc
            rw [List.headD_eq_head?_getD, hc] at hback
            exact beq_false_of_ne (ne_of_mem_indicators hback (by decide))
          rw [List.append_nil, passed_of_spaces hspaces]
          exact Runs.bind (lex_runs (Lexer.skipWhile_runs h hrest hblank hstop))
            (Runs.bind (lex_runs (Lexer.ahead_runs hfault))
              (Runs.ifFalse (ne_of_mem_indicators hahead (by decide))
                (Runs.bind (lex_runs (Lexer.lineBreak_none hfault
                    (isBreak_of_mem_indicators _ hahead)))
                  (Runs.ifFalse (not_not.2 rfl) (Runs.pure _ _)))))
      | cons c rest =>
          obtain rfl : c = '\n' := (hgap c (by simp)).resolve_left (htail c rest rfl)
          have hshort : rest.length < bound := by
            rw [List.length_append, List.length_cons] at hbound
            omega
          have hwhole := ih (t := t.onNewLine (t.cursor.skip spaces.length).next)
            (by rw [onNewLine, Cursor.fault_next, hfault]) (fun c hc => hgap c (by simp [hc]))
            (Cursor.next_of_cons hafter).1 hshort
          rw [passed_onNewLine] at hwhole
          refine Runs.bind (lex_runs (Lexer.skipWhile_runs h hrest hblank (by simp)))
            (Runs.bind (lex_runs (Lexer.peek_runs hafter)) (Runs.ifFalse (by decide)
              (Runs.bind (lex_runs (Lexer.lineBreak_feed hfault hafter))
                (Runs.ifTrue (by decide) (Runs.bind (Runs.get _) ?_)))))
          cases hflow : t.inFlow with
          | true =>
              rw [onNewLine, hflow, Bool.not_true, Bool.or_false] at hwhole
              have hopen : ¬ (!t.inFlow) = true := by simp [hflow]
              exact Runs.ifFalse hopen hwhole
          | false =>
              rw [onNewLine, hflow, Bool.not_false, Bool.or_true] at hwhole
              have hclosed : (!t.inFlow) = true := by simp [hflow]
              exact Runs.ifTrue hclosed (Runs.bind (Runs.modified _ _) hwhole)

/-! ### Starts of keys -/

/-- A start of a key, as long as it is possible. -/
def remaining (cursor : Cursor) (start : Option KeyStart) : Option KeyStart :=
  start.filter fun key => !isStale cursor key

/-- The state without the starts that are not possible any more. -/
def refreshed (t : Tokenizer) : Tokenizer :=
  { t with
    keyStart := remaining t.cursor t.keyStart
    outer := t.outer.map (remaining t.cursor) }

theorem fresh_eq {cursor : Cursor} {start : Option KeyStart}
    (h : ∀ key, start = some key → key.required = false) :
    fresh cursor start = .ok (remaining cursor start) := by
  cases start with
  | none => rfl
  | some key =>
      have hkey := h key rfl
      cases hstale : isStale cursor key <;> simp [fresh, remaining, Option.filter, hstale, hkey]

theorem mapM_fresh_eq {cursor : Cursor} {starts : List (Option KeyStart)}
    (h : ∀ key, some key ∈ starts → key.required = false) :
    starts.mapM (fresh cursor) = .ok (starts.map (remaining cursor)) := by
  induction starts with
  | nil => rfl
  | cons start starts ih =>
      rw [List.mapM_cons, fresh_eq (fun key hkey => h key (by simp [hkey])),
        ih fun key hkey => h key (List.mem_cons_of_mem start hkey)]
      rfl

/-- What holds between the tokens of JSON text so many brackets deep: no fault is ahead, no
block collection is open, and nothing has to be a key. -/
structure Calm (levels : Nat) (t : Tokenizer) : Prop where
  clean : t.cursor.fault = none
  within : t.cursor.rest.length ≤ t.cursor.size
  flat : t.indents = []
  going : t.finished = false
  depth : t.outer.length = levels
  optional : ∀ key, some key ∈ t.keyStart :: t.outer → key.required = false

namespace Calm

variable {levels : Nat}

theorem refreshed (h : Calm levels t) : Calm levels t.refreshed where
  clean := h.clean
  within := h.within
  flat := h.flat
  going := h.going
  depth := by rw [Tokenizer.refreshed, List.length_map, h.depth]
  optional := by
    intro key hkey
    have hremaining : ∀ start, remaining t.cursor start = some key → start = some key :=
      fun start hstart => (Option.filter_eq_some_iff.1 hstart).1
    rcases List.mem_cons.1 hkey with heq | hmem
    · exact h.optional key (List.mem_cons.2 (Or.inl (hremaining _ heq.symm).symm))
    · obtain ⟨start, hstart, heq⟩ := List.mem_map.1 hmem
      exact h.optional key (List.mem_cons_of_mem _ (hremaining start heq ▸ hstart))

/-- Nothing but the place changes where characters are skipped. -/
theorem skipped (h : Calm levels t) (count : Nat) :
    Calm levels (t.withCursor (t.cursor.skip count)) where
  clean := by rw [cursor_withCursor, Cursor.fault_skip, h.clean]
  within := Cursor.length_rest_skip_le h.within _
  flat := h.flat
  going := h.going
  depth := h.depth
  optional := h.optional

theorem passed (h : Calm levels t) (gap : List Char) : Calm levels (t.passed gap) :=
  { h.skipped gap.length with }

theorem dropStale_runs (h : Calm levels t) : Runs dropStale t ⟨⟩ t.refreshed := by
  have hfresh : t.withoutStale = .ok t.refreshed := by
    rw [withoutStale, fresh_eq (fun key hkey => h.optional key (by simp [hkey])),
      mapM_fresh_eq (fun key hkey => h.optional key (List.mem_cons_of_mem _ hkey))]
    rfl
  have hlifted : Runs (liftM t.withoutStale : Tokenizing Tokenizer) t t.refreshed t := by
    rw [hfresh]
    rfl
  exact Runs.bind (Runs.get t) (Runs.bind hlifted rfl)

theorem dropKey_runs (h : Calm levels t) :
    Runs dropKey t ⟨⟩ { t with keyStart := none } := by
  refine Runs.bind (Runs.get t) ?_
  cases hkey : t.keyStart with
  | none =>
      have hsame : t = { t with keyStart := none } := by rw [← hkey]
      rw [← hsame]
      exact Runs.pure _ t
  | some key =>
      exact Runs.ifFalse (by simp [h.optional key (by simp [hkey])]) rfl

theorem unwind_runs (h : Calm levels t) (column : Option Nat) : Runs (unwind column) t ⟨⟩ t := by
  refine Runs.bind (Runs.get t) ?_
  cases hflow : t.inFlow with
  | true => exact Runs.pure _ t
  | false =>
      have hsame : t = { t with indents := [], queue := t.queue ++ [] } := by
        rw [List.append_nil, ← h.flat]
      have hset : Runs (set { t with indents := [], queue := t.queue ++ [] } : Tokenizing PUnit)
          t ⟨⟩ t := by
        rw [← hsame]
        rfl
      refine Runs.ifTrue rfl ?_
      cases column with
      | none =>
          dsimp only
          rw [h.flat]
          exact hset
      | some column =>
          dsimp only
          rw [h.flat]
          exact hset

end Calm

/-! ### Finding a token -/

/-- What is done where a token of JSON text begins. -/
def action : Char → Tokenizing Unit
  | '[' => foundOpening .flowSequenceStart
  | '{' => foundOpening .flowMappingStart
  | ']' => foundClosing .flowSequenceEnd
  | '}' => foundClosing .flowMappingEnd
  | ',' => foundFlowEntry
  | ':' => foundValue
  | '"' => foundNode ((fun text => .scalar text false) <$> Lexer.quoted true)
  | _ => foundEnd

theorem isNext_runs {c : Char} {after : Lexer Bool} (h : t.cursor.fault = none)
    (hc : t.cursor.ahead ≠ c) : Runs (isNext c after) t false t :=
  Runs.bind (lex_runs (Lexer.ahead_runs h)) (Runs.ifFalse hc (Runs.pure false t))

theorem isMark_runs {c : Char} {state : Tokenizer} (h : t.cursor.fault = none)
    (hc : t.cursor.ahead ≠ c) : Runs (isMark c state) t false t := by
  by_cases hcolumn : state.cursor.column = 0
  · exact Runs.ifTrue hcolumn (isNext_runs h hc)
  · exact Runs.ifFalse hcolumn (Runs.pure false t)

/-- Where no byte order mark begins the document, none is skipped. -/
theorem skipMark_runs {next : PUnit → Tokenizing Unit} {u : Tokenizer}
    (h : t.cursor.fault = none) (hmark : t.cursor.ahead ≠ '\ufeff')
    (hnext : Runs (next ⟨⟩) t ⟨⟩ u) :
    Runs (if t.cursor.index = 0 then
        lex Lexer.peek >>= fun c =>
          if c = '\ufeff' then lex (Lexer.advance 1) >>= next else next ⟨⟩
      else next ⟨⟩) t ⟨⟩ u := by
  by_cases hindex : t.cursor.index = 0
  · exact Runs.ifTrue hindex (Runs.bind (lex_runs (Lexer.ahead_runs h)) (Runs.ifFalse hmark hnext))
  · exact Runs.ifFalse hindex hnext

/-- Behind the gap before it a token is found by the action for its first character. -/
theorem find_runs {levels : Nat} {gap back : List Char} {u : Tokenizer} (h : Calm levels t)
    (hgap : IsGap gap) (hrest : t.cursor.rest = gap ++ back)
    (hback : back.headD '\x00' ∈ indicators) (hcolon : back.headD '\x00' = ':' → 0 < levels)
    (haction : Runs (action (back.headD '\x00'))
      (t.passed gap).refreshed ⟨⟩ u) :
    Runs find t ⟨⟩ u := by
  have hmark : t.cursor.ahead ≠ '\ufeff' := by
    rw [Cursor.ahead, hrest]
    cases gap with
    | nil => exact ne_of_mem_indicators hback (by decide)
    | cons c gap =>
        show c ≠ '\ufeff'
        rcases hgap c List.mem_cons_self with rfl | rfl
        · decide
        · decide
  have hbound : gap.length < t.cursor.size + 1 := by
    have hlength := congrArg List.length hrest
    have := h.within
    rw [List.length_append] at hlength
    omega
  have hmoved := h.passed gap
  have hready := hmoved.refreshed
  generalize hstate : (t.passed gap).refreshed = ready at *
  have hahead : ready.cursor.ahead = back.headD '\x00' := by
    rw [← hstate]
    exact congrArg (List.headD · '\x00') (Cursor.rest_skip hrest)
  have hskip := skipToToken_runs h.clean hgap hrest hback hbound
  have hdrop := hmoved.dropStale_runs
  rw [hstate] at hdrop
  have hpeek := lex_runs (Lexer.ahead_runs hready.clean)
  rw [hahead] at hpeek
  have hother : ∀ {c after}, c ∉ indicators → Runs (isNext c after) ready false ready :=
    fun hc => isNext_runs hready.clean (hahead ▸ ne_of_mem_indicators hback hc)
  have hnoMark : ∀ {c state}, c ∉ indicators → Runs (isMark c state) ready false ready :=
    fun hc => isMark_runs hready.clean (hahead ▸ ne_of_mem_indicators hback hc)
  generalize back.headD '\x00' = c at *
  refine Runs.bind (Runs.get t) (skipMark_runs h.clean hmark
    (Runs.bind (lex_runs (Lexer.bound_runs _)) (Runs.bind hskip (Runs.bind hdrop
      (Runs.bind (Runs.get ready) (Runs.bind (hready.unwind_runs _)
        (Runs.bind (Runs.get ready) (Runs.bind hpeek ?_))))))))
  have hpercent : ¬ (c = '%' ∧ ready.cursor.column = 0) := fun heq =>
    ne_of_mem_indicators hback (by decide) heq.1
  have hfound : ∀ {k}, c = k → Runs (action k) ready ⟨⟩ u := fun heq => heq ▸ haction
  -- The tests are made in turn, each where those before it failed.
  refine Runs.byCases hfound fun hend => Runs.ifFalse hpercent
    (Runs.testFalse (hnoMark (by decide)) (Runs.testFalse (hnoMark (by decide))
      (Runs.byCases hfound fun hsequence => Runs.byCases hfound fun hmapping =>
        Runs.byCases hfound fun hsequenceEnd => Runs.byCases hfound fun hmappingEnd =>
          Runs.byCases hfound fun hentry => Runs.testFalse (hother (by decide))
            (Runs.testFalse (hother (by decide)) ?_))))
  by_cases hvalue : c = ':'
  · have hflow : ready.inFlow = true := inFlow_of_pos (hready.depth ▸ hcolon hvalue)
    have halone : Runs (isNext ':' (standsAlone ready)) ready true ready :=
      Runs.bind hpeek (Runs.ifTrue hvalue (lex_runs (Runs.ifTrue hflow (Runs.pure true _))))
    exact Runs.testTrue halone (hfound hvalue)
  · obtain rfl : c = '"' := by
      simpa [indicators, hend, hsequence, hmapping, hsequenceEnd, hmappingEnd, hentry, hvalue]
        using hback
    refine Runs.testFalse (isNext_runs hready.clean (hahead ▸ hvalue)) ?_
    exact Runs.ifFalse (by decide) (Runs.ifFalse (by decide) (Runs.ifFalse (by decide)
      (Runs.ifFalse (by simp) (Runs.ifFalse (by simp) (Runs.ifFalse (by decide)
        (Runs.ifTrue rfl haction))))))

/-! ### What is found -/

/-- The state after a token: what was read, and what was put into the queue. -/
structure Found (levels : Nat) (t : Tokenizer) (count : Nat) (tokens : List Token)
    (u : Tokenizer) : Prop where
  calm : Calm levels u
  cursor : u.cursor = t.cursor.skip count
  queue : u.queue = t.queue ++ tokens

/-- The start of a key at a place where none has to begin. -/
def startHere (t : Tokenizer) : KeyStart :=
  { number := t.taken + t.queue.length
    required := false
    index := t.cursor.index
    line := t.cursor.line
    column := t.cursor.column }

namespace Calm

variable {levels : Nat}

/-- A state is calm whatever start of a key is noted, unless it has to be one. -/
theorem noting (h : Calm levels t) {start : Option KeyStart}
    (hstart : ∀ key, start = some key → key.required = false) :
    Calm levels { t with keyStart := start } :=
  { h with
    optional := by
      intro key hkey
      rcases List.mem_cons.1 hkey with heq | hmem
      · exact hstart key heq.symm
      · exact h.optional key (List.mem_cons_of_mem _ hmem) }

theorem saveKey_runs (h : Calm levels t) :
    ∃ start, Runs saveKey t ⟨⟩ { t with keyStart := start } ∧
      Calm levels { t with keyStart := start } ∧
      (t.keyAllowed = true → start = some t.startHere) := by
  by_cases hallowed : t.keyAllowed = true
  · have hflat : (!t.inFlow && decide (t.indents.head? = some t.cursor.column)) = false := by
      simp [h.flat]
    have hcalm : Calm levels { t with keyStart := some t.startHere } :=
      h.noting fun key hkey => by rw [← Option.some.inj hkey]; rfl
    refine ⟨some t.startHere, ?_, hcalm, fun _ => rfl⟩
    refine Runs.bind (Runs.get t) (Runs.ifTrue hallowed (Runs.bind h.dropKey_runs ?_))
    dsimp only
    rw [hflat]
    exact Runs.modified _ _
  · exact ⟨t.keyStart, Runs.bind (Runs.get t) (Runs.ifFalse hallowed (Runs.pure _ t)), h,
      fun htrue => absurd htrue hallowed⟩

theorem opening_runs (h : Calm levels t) (token : Token) :
    ∃ u, Runs (foundOpening token) t ⟨⟩ u ∧ Found (levels + 1) t 1 [token] u ∧
      u.keyAllowed = true := by
  obtain ⟨start, hsave, hcalm, -⟩ := h.saveKey_runs
  have hmoved := hcalm.skipped 1
  refine ⟨_, Runs.bind hsave (Runs.bind (Runs.modified _ _) (Runs.bind (Runs.modified _ _)
    (Runs.bind (lex_runs (Lexer.advance_runs h.clean 1)) (Runs.modified _ _)))), ?_, rfl⟩
  refine ⟨⟨hmoved.clean, hmoved.within, hmoved.flat, hmoved.going, congrArg Nat.succ h.depth, ?_⟩,
    rfl, rfl⟩
  intro key hkey
  rcases List.mem_cons.1 hkey with heq | hmem
  · exact absurd heq (by simp [withCursor])
  · exact hcalm.optional key hmem

theorem closing_runs (h : Calm (levels + 1) t) (token : Token) :
    ∃ u, Runs (foundClosing token) t ⟨⟩ u ∧ Found levels t 1 [token] u := by
  have hmoved := h.skipped 1
  obtain ⟨start, outer, houter⟩ := List.exists_cons_of_length_eq_add_one h.depth
  have hdrop := h.dropKey_runs
  obtain ⟨cursor, indents, keyAllowed, keyStart, starts, queue, taken, finished⟩ := t
  dsimp only at houter
  subst houter
  refine ⟨_, Runs.bind hdrop (Runs.bind (Runs.modified _ _) (Runs.bind (Runs.modified _ _)
    (Runs.bind (lex_runs (Lexer.advance_runs h.clean 1)) (Runs.modified _ _)))), ?_⟩
  exact ⟨⟨hmoved.clean, hmoved.within, hmoved.flat, hmoved.going, Nat.succ.inj h.depth,
    fun key hkey => h.optional key (List.mem_cons_of_mem _ hkey)⟩, rfl, rfl⟩

theorem entry_runs (h : Calm levels t) :
    ∃ u, Runs foundFlowEntry t ⟨⟩ u ∧ Found levels t 1 [.flowEntry] u ∧ u.keyAllowed = true := by
  have hallowed : Calm levels { t with keyAllowed := true } := { h with }
  have hnone : Calm levels { t with keyStart := none } := h.noting fun key hkey => nomatch hkey
  have hmoved := hnone.skipped 1
  refine ⟨_, Runs.bind (Runs.modified _ _) (Runs.bind hallowed.dropKey_runs
    (Runs.bind (lex_runs (Lexer.advance_runs h.clean 1)) (Runs.modified _ _))), ?_, rfl⟩
  exact ⟨{ hmoved with }, rfl, rfl⟩

/-- A string is found, and where a key is allowed the start of one is noted. -/
theorem string_runs (h : Calm levels t) {s : String} {rest : List Char} (hs : Json.Ascii s)
    (hrest : t.cursor.rest = Json.quote s ++ rest) :
    ∃ u, Runs (action '"') t ⟨⟩ u ∧
      Found levels t (Json.quote s).length [.scalar (.whole s) false] u ∧
      u.taken = t.taken ∧ (t.keyAllowed = true → u.keyStart = some t.startHere) := by
  obtain ⟨start, hsave, hcalm, hstart⟩ := h.saveKey_runs
  have hmoved := hcalm.skipped (Json.quote s).length
  have hquoted := Lexer.quoted_runs hs h.clean h.within hrest
  refine ⟨_, Runs.bind hsave (Runs.bind (Runs.modified _ _)
    (Runs.bind (lex_runs (Runs.map hquoted)) (Runs.modified _ _))),
    ⟨{ hmoved with }, rfl, rfl⟩, rfl, hstart⟩

/-- The colon after a key is found: a mark is put before the key. -/
theorem colon_runs (h : Calm (levels + 1) t) {start : KeyStart} {before after : List Token}
    (hstart : t.keyStart = some start) (hqueue : t.queue = before ++ after)
    (hnumber : start.number - t.taken = before.length) :
    ∃ u, Runs foundValue t ⟨⟩ u ∧ Calm (levels + 1) u ∧ u.cursor = t.cursor.skip 1 ∧
      u.queue = before ++ [.key] ++ after ++ [.value] := by
  have hnone : Calm (levels + 1) { t with keyStart := none } :=
    h.noting fun key hkey => nomatch hkey
  have hmoved := hnone.skipped 1
  have hflow : t.inFlow = true := inFlow_of_pos (by rw [h.depth]; omega)
  have hinsert : insertAt t.queue (start.number - t.taken) [.key] = before ++ [.key] ++ after := by
    rw [insertAt, hnumber, hqueue, List.take_left, List.drop_left]
  refine ⟨{ t with
    cursor := t.cursor.skip 1, keyStart := none, keyAllowed := false,
    queue := before ++ [.key] ++ after ++ [.value] }, ?_, ?_, rfl, rfl⟩
  · refine Runs.bind (Runs.get t) ?_
    rw [hstart]
    dsimp only
    rw [hflow, ← hinsert]
    have hset : Runs (set { t with keyStart := none } : Tokenizing PUnit) t ⟨⟩
        { t with keyStart := none } := rfl
    exact Runs.bind hset (Runs.ifTrue rfl (Runs.bind (Runs.pure false _)
      (Runs.bind (Runs.modified _ _) (Runs.bind (Runs.modified _ _)
        (Runs.bind (lex_runs (Lexer.advance_runs h.clean 1)) (Runs.modified _ _))))))
  · exact { hmoved with }

/-- At the end nothing is left to find. -/
theorem end_runs (h : Calm levels t) :
    ∃ u, Runs foundEnd t ⟨⟩ u ∧ u.finished = true ∧ u.queue = t.queue ++ [.streamEnd] :=
  ⟨_, Runs.bind (h.unwind_runs none) (Runs.bind h.dropKey_runs (Runs.bind (Runs.modified _ _)
    (Runs.bind (Runs.modified _ _) (Runs.modified _ _)))), rfl, rfl⟩

end Calm

end Tokenizer
end Yaml
end ContractAdmission
