import ContractAdmission.Proofs.Yaml.TokenSteps

/-!
# The tokens of indented JSON text

A value whose strings are those of `Json.Ascii` has the same tokens in a document as it has as
JSON text.  A token is handed on when it is certain that no key begins at it, which the rest of
the text decides; so the tokens that a state yields are told from the end of the text backwards.

* `Tokenizer.Yields` — the tokens that are handed on from a state on.
* `Tokenizer.Handed` — what becomes of a state while the tokens of its queue are handed on.
* `Tokenizer.Continues.yields` — one more token can be found after any that are handed on; so
  those that a state yields can be told.
* `Tokenizer.Goes` — the tokens of the rest of a text, with a rule for each token in front.
* `Tokenizer.ofSource_indented` — the tokens of the indented text of a value are its own.
-/

namespace ContractAdmission
namespace Yaml
namespace Tokenizer

/-! ### Tokens that are handed on -/

/-- The state after the first token of the queue was handed on. -/
def afterFirst (t : Tokenizer) (queue : List Token) : Tokenizer :=
  { t with queue := queue, taken := t.taken + 1 }

/-- What becomes of a state while tokens of its queue are handed on: none is found, and no start
of a key is passed by. -/
structure Handed (s : Tokenizer) (given : List Token) (t : Tokenizer) : Prop where
  calm : ∀ levels, Calm levels s → Calm levels t
  cursor : t.cursor = s.cursor
  keyAllowed : t.keyAllowed = s.keyAllowed
  queue : s.queue = given ++ t.queue
  taken : t.taken = s.taken + given.length
  kept : ∀ key, s.keyStart = some key → isStale s.cursor key = false → t.keyStart = some key
  noted : ∀ key, t.keyStart = some key → s.keyStart = some key
  certain : ∀ key, t.keyStart = some key → s.taken ≤ key.number → t.taken ≤ key.number

namespace Handed

theorem refl (s : Tokenizer) : Handed s [] s where
  calm _ h := h
  cursor := rfl
  keyAllowed := rfl
  queue := rfl
  taken := rfl
  kept _ h _ := h
  noted _ h := h
  certain _ _ h := h

theorem trans {s t u : Tokenizer} {first later : List Token} (h : Handed s first t)
    (h' : Handed t later u) : Handed s (first ++ later) u where
  calm levels hcalm := h'.calm levels (h.calm levels hcalm)
  cursor := h'.cursor.trans h.cursor
  keyAllowed := h'.keyAllowed.trans h.keyAllowed
  queue := by rw [h.queue, h'.queue, List.append_assoc]
  taken := by rw [h'.taken, h.taken, List.length_append, Nat.add_assoc]
  kept key hkey hstale := h'.kept key (h.kept key hkey hstale) (by rwa [h.cursor])
  noted key hkey := h.noted key (h'.noted key hkey)
  certain key hkey hnumber := h'.certain key hkey (h.certain key (h'.noted key hkey) hnumber)

theorem refreshed (s : Tokenizer) : Handed s [] s.refreshed where
  calm _ h := h.refreshed
  cursor := rfl
  keyAllowed := rfl
  queue := rfl
  taken := rfl
  kept key hkey hstale := by
    show remaining s.cursor s.keyStart = some key
    rw [remaining, hkey, Option.filter_some, if_pos (by simp [hstale])]
  noted _ hkey := (Option.filter_eq_some_iff.1 hkey).1
  certain _ _ h := h

/-- The first token is handed on where no key can begin at it. -/
theorem first {s : Tokenizer} {token : Token} {queue : List Token}
    (hqueue : s.queue = token :: queue) (hpending : s.isPending = false) :
    Handed s [token] (s.afterFirst queue) where
  calm _ h := { h with }
  cursor := rfl
  keyAllowed := rfl
  queue := hqueue
  taken := rfl
  kept _ h _ := h
  noted _ h := h
  certain key hkey hnumber := by
    have hother : key.number ≠ s.taken := by
      intro heq
      have hkey : s.keyStart = some key := hkey
      simp [isPending, hkey, heq] at hpending
    show s.taken + 1 ≤ key.number
    omega

end Handed

/-! ### The tokens from a state on -/

/-- The tokens from a state on, where a number of steps may be taken to be certain of the
first. -/
def collectFrom (steps bound : Nat) (s : Tokenizer) : TokenStream :=
  match settle steps s with
  | .error fault => ⟨[], some fault⟩
  | .ok (_, next) =>
      match next.queue with
      | [] => ⟨[], none⟩
      | token :: queue =>
          let later := TokenStream.collect bound
            { next with queue := queue, taken := next.taken + 1 }
          ⟨token :: later.tokens, later.fault⟩

theorem collectFrom_of_settle {steps steps' bound : Nat} {s s' : Tokenizer}
    (h : settle steps s = settle steps' s') :
    collectFrom steps bound s = collectFrom steps' bound s' := by
  rw [collectFrom, collectFrom, h]

/-- The tokens from a state on are a list of tokens, and then there is no fault: whatever number
of steps is allowed, as long as each character may take one. -/
def Yields (s : Tokenizer) (tokens : List Token) : Prop :=
  ∀ steps bound, (s.finished = false → s.cursor.rest.length + 2 ≤ steps) →
    tokens.length ≤ bound → collectFrom steps bound s = ⟨tokens, none⟩

/-- One token is handed on where it is certain. -/
theorem collectFrom_of_runs {steps bound : Nat} {s next : Tokenizer} {token : Token}
    {queue later : List Token} (h : Runs (settle steps) s ⟨⟩ next)
    (hqueue : next.queue = token :: queue)
    (hwithin : next.finished = false → next.cursor.rest.length ≤ next.cursor.size)
    (hlater : Yields (next.afterFirst queue) later) (hbound : (token :: later).length ≤ bound) :
    collectFrom steps bound s = ⟨token :: later, none⟩ := by
  have hsettle : settle steps s = .ok (⟨⟩, next) := h
  obtain ⟨bound, rfl⟩ := Nat.exists_eq_add_one_of_ne_zero
    (Nat.ne_of_gt (Nat.lt_of_lt_of_le (Nat.succ_pos later.length) hbound))
  have hrest : TokenStream.collect (bound + 1) (next.afterFirst queue) = ⟨later, none⟩ :=
    hlater _ bound (fun hgoing => Nat.add_le_add_right (hwithin hgoing) 2)
      (Nat.le_of_succ_le_succ hbound)
  rw [afterFirst] at hrest
  simp only [collectFrom, hsettle, hqueue, hrest]

theorem settle_finished (steps : Nat) {s : Tokenizer} (h : s.finished = true) :
    Runs (settle steps) s ⟨⟩ s := by
  cases steps with
  | zero => exact Runs.pure _ s
  | succ steps => exact Runs.bind (Runs.get s) (Runs.ifFalse (by simp [h]) (Runs.pure _ s))

/-- After the end what waits in the queue is handed on. -/
theorem Yields.of_finished {s : Tokenizer} (h : s.finished = true) : Yields s s.queue := by
  generalize hlist : s.queue = queue
  induction queue generalizing s with
  | nil =>
      intro steps bound _ _
      have hsettle : settle steps s = .ok (⟨⟩, s) := settle_finished steps h
      simp only [collectFrom, hsettle, hlist]
  | cons token queue ih =>
      intro steps bound _ hbound
      have hlater : Yields (s.afterFirst queue) queue := ih h rfl
      exact collectFrom_of_runs (settle_finished steps h) hlist
        (fun hgoing => absurd (h.symm.trans hgoing) (by decide)) hlater hbound

/-! Where one more token has to be found, the next step does it. -/

theorem settle_of_empty {steps : Nat} {s u : Tokenizer} (hgoing : s.finished = false)
    (hqueue : s.queue = []) (hfind : Runs find s ⟨⟩ u) : settle (steps + 1) s = settle steps u := by
  refine (Runs.run_bind (Runs.get s)).trans ?_
  rw [if_pos (by simp [hgoing]), if_pos hqueue]
  exact Runs.run_bind hfind

theorem settle_of_pending {levels steps : Nat} {s u : Tokenizer} (h : Calm levels s)
    (hqueue : s.queue ≠ []) (hpending : s.refreshed.isPending = true)
    (hfind : Runs find s.refreshed ⟨⟩ u) : settle (steps + 1) s = settle steps u := by
  refine (Runs.run_bind (Runs.get s)).trans ?_
  rw [if_pos (by simp [h.going]), if_neg hqueue]
  refine (Runs.run_bind h.dropStale_runs).trans ((Runs.run_bind (Runs.get _)).trans ?_)
  rw [if_pos hpending]
  exact Runs.run_bind hfind

/-- Where the first token is certain, none is found. -/
theorem settle_of_certain {levels steps : Nat} {s : Tokenizer} (h : Calm levels s)
    (hqueue : s.queue ≠ []) (hpending : s.refreshed.isPending = false) :
    Runs (settle (steps + 1)) s ⟨⟩ s.refreshed :=
  Runs.bind (Runs.get s) (Runs.ifTrue (by simp [h.going]) (Runs.ifFalse hqueue
    (Runs.bind h.dropStale_runs (Runs.bind (Runs.get _)
      (Runs.ifFalse (by simp [hpending]) (Runs.pure _ _))))))

/-- After any tokens that are handed on first, one more can be found, and the state behind it
yields the rest of a list of tokens. -/
def Continues (s : Tokenizer) (tokens : List Token) : Prop :=
  ∀ given t, Handed s given t → ∃ later u, tokens = given ++ later ∧ Runs find t ⟨⟩ u ∧
    (u.finished = false → u.cursor.rest.length < t.cursor.rest.length) ∧ Yields u later

namespace Continues

variable {levels : Nat} {s : Tokenizer} {tokens : List Token}

/-- A token is found before any is handed on. -/
theorem collectFrom_eq {steps bound : Nat} {t : Tokenizer} (h : Continues s tokens)
    (ht : Handed s [] t)
    (hsettle : ∀ u, Runs find t ⟨⟩ u → settle (steps + 1) s = settle steps u)
    (hsteps : s.cursor.rest.length + 2 ≤ steps + 1) (hbound : tokens.length ≤ bound) :
    collectFrom (steps + 1) bound s = ⟨tokens, none⟩ := by
  obtain ⟨later, u, rfl, hrun, hprogress, hyields⟩ := h [] t ht
  rw [collectFrom_of_settle (hsettle u hrun)]
  refine hyields steps bound (fun hgoing => ?_) hbound
  have hless := hprogress hgoing
  rw [ht.cursor] at hless
  omega

/-- A token is handed on before one is found. -/
theorem of_handed {token : Token} {t : Tokenizer} (h : Continues s tokens)
    (ht : Handed s [token] t) : ∃ later, tokens = token :: later ∧ Continues t later := by
  obtain ⟨rest, -, rfl, -⟩ := h [token] t ht
  refine ⟨rest, rfl, fun given t' ht' => ?_⟩
  obtain ⟨later, u, htokens, hfound⟩ := h ([token] ++ given) t' (ht.trans ht')
  rw [List.append_assoc] at htokens
  exact ⟨later, u, List.append_cancel_left htokens, hfound⟩

/-- So the state yields the list: the induction is on the queue, which gets shorter with each
token that is handed on. -/
theorem yields (hcalm : Calm levels s) (h : Continues s tokens) : Yields s tokens := by
  generalize hlist : s.queue = queue
  induction queue generalizing s tokens with
  | nil =>
      intro steps bound hsteps hbound
      have hmany := hsteps hcalm.going
      obtain ⟨steps, rfl⟩ := Nat.exists_eq_add_one_of_ne_zero (n := steps) (by omega)
      exact h.collectFrom_eq (Handed.refl s)
        (fun u hrun => settle_of_empty hcalm.going hlist hrun) hmany hbound
  | cons token queue ih =>
      intro steps bound hsteps hbound
      have hmany := hsteps hcalm.going
      obtain ⟨steps, rfl⟩ := Nat.exists_eq_add_one_of_ne_zero (n := steps) (by omega)
      have hqueue : s.queue ≠ [] := by simp [hlist]
      cases hpending : s.refreshed.isPending with
      | true =>
          exact h.collectFrom_eq (Handed.refreshed s)
            (fun u hrun => settle_of_pending hcalm hqueue hpending hrun) hmany hbound
      | false =>
          have hgiven : Handed s [token] (s.refreshed.afterFirst queue) :=
            (Handed.refreshed s).trans (Handed.first hlist hpending)
          obtain ⟨later, rfl, hlater⟩ := h.of_handed hgiven
          exact collectFrom_of_runs (settle_of_certain hcalm hqueue hpending) hlist
            (fun _ => hcalm.within) (ih (hgiven.calm levels hcalm) hlater rfl) hbound

end Continues

/-! ### Tokens of the rest of a text -/

/-- A text that is still to be read so many brackets deep, where a key may have to be allowed,
goes on with a list of tokens. -/
structure Goes (levels : Nat) (keyed : Bool) (rest : List Char) (tokens : List Token) : Prop where
  few : tokens.length ≤ 4 * rest.length + 4
  yields : ∀ s, Calm levels s → (keyed = true → s.keyAllowed = true) → s.cursor.rest = rest →
    Yields s (s.queue ++ tokens)

namespace Goes

variable {levels : Nat} {keyed : Bool} {gap back : List Char} {later : List Token}

theorem weaken (h : Goes levels false back later) : Goes levels true back later where
  few := h.few
  yields s hcalm _ := h.yields s hcalm nofun

/-- A token or more stand in front of those of the rest, where one action finds them. -/
theorem step {levels' : Nat} {keyed' : Bool} {c : Char} {inner : List Char} {first : List Token}
    (h : Goes levels' keyed' back later) (hgap : IsGap gap) (hc : c ∈ indicators)
    (hcolon : c ≠ ':') (hfew : first.length ≤ 4)
    (hfind : ∀ t, Calm levels t → (keyed = true → t.keyAllowed = true) →
      t.cursor.rest = c :: inner ++ back → ∃ u, Runs (action c) t ⟨⟩ u ∧
        Found levels' t (c :: inner).length first u ∧ (keyed' = true → u.keyAllowed = true)) :
    Goes levels keyed (gap ++ (c :: inner ++ back)) (first ++ later) where
  few := by
    have hlater := h.few
    simp only [List.length_append, List.length_cons]
    omega
  yields s hcalm hallowed hrest := by
    refine Continues.yields hcalm fun given t ht => ?_
    rw [← ht.cursor] at hrest
    have hquiet := ht.calm levels hcalm
    have hback := Cursor.rest_skip hrest
    obtain ⟨u, hrun, hfound, hkeyed⟩ := hfind (t.passed gap).refreshed
      (hquiet.passed gap).refreshed
      (fun hkey => keyAllowed_passed gap (ht.keyAllowed.trans (hallowed hkey))) hback
    have hafter : u.cursor.rest = back := by
      rw [hfound.cursor]
      exact Cursor.rest_skip hback
    have hyields := h.yields u hfound.calm hkeyed hafter
    rw [hfound.queue, List.append_assoc] at hyields
    refine ⟨_, u, ?_, find_runs hquiet hgap hrest hc (fun heq => absurd heq hcolon) hrun, ?_,
      hyields⟩
    · rw [ht.queue, List.append_assoc]
      rfl
    · intro _
      rw [hafter, hrest]
      simp only [List.length_append, List.length_cons]
      omega

theorem opening {c : Char} {token : Token} (h : Goes (levels + 1) true back later)
    (hgap : IsGap gap) (haction : action c = foundOpening token)
    (hc : c ∈ indicators ∧ c ≠ ':') : Goes levels false (gap ++ c :: back) (token :: later) := by
  show Goes levels false (gap ++ ([c] ++ back)) ([token] ++ later)
  refine h.step hgap hc.1 hc.2 (Nat.le_add_left 1 3) fun t hcalm _ hrest => ?_
  obtain ⟨u, hrun, hfound, hallowed⟩ := hcalm.opening_runs token
  exact ⟨u, haction ▸ hrun, hfound, fun _ => hallowed⟩

theorem closing {c : Char} {token : Token} (h : Goes levels false back later)
    (hgap : IsGap gap) (haction : action c = foundClosing token)
    (hc : c ∈ indicators ∧ c ≠ ':') :
    Goes (levels + 1) false (gap ++ c :: back) (token :: later) := by
  show Goes (levels + 1) false (gap ++ ([c] ++ back)) ([token] ++ later)
  refine h.step hgap hc.1 hc.2 (Nat.le_add_left 1 3) fun t hcalm _ hrest => ?_
  obtain ⟨u, hrun, hfound⟩ := hcalm.closing_runs token
  exact ⟨u, haction ▸ hrun, hfound, nofun⟩

theorem comma (h : Goes levels true back later) :
    Goes levels false (',' :: back) (.flowEntry :: later) := by
  show Goes levels false ([] ++ ([','] ++ back)) ([.flowEntry] ++ later)
  refine h.step isGap_nil (by decide) (by decide) (by decide) fun t hcalm _ hrest => ?_
  obtain ⟨u, hrun, hfound, hallowed⟩ := hcalm.entry_runs
  exact ⟨u, hrun, hfound, fun _ => hallowed⟩

theorem string {s : String} (h : Goes levels false back later) (hgap : IsGap gap)
    (hs : Json.Ascii s) :
    Goes levels false (gap ++ (Json.quote s ++ back)) (.scalar (.whole s) false :: later) := by
  show Goes levels false (gap ++ (Json.quote s ++ back)) ([.scalar (.whole s) false] ++ later)
  refine h.step hgap (by decide) (by decide) (Nat.le_add_left 1 3) fun t hcalm _ hrest => ?_
  obtain ⟨u, hrun, hfound, -⟩ := hcalm.string_runs hs hrest
  exact ⟨u, hrun, hfound, nofun⟩

/-- Behind the last gap the end is found. -/
theorem nil (hgap : IsGap gap) : Goes 0 false gap [.streamEnd] where
  few := Nat.le_add_left 1 _
  yields s hcalm _ hrest := by
    refine Continues.yields hcalm fun given t ht => ?_
    have hquiet := ht.calm 0 hcalm
    have hrest : t.cursor.rest = gap ++ [] := by rw [ht.cursor, hrest, List.append_nil]
    obtain ⟨u, hrun, hfinished, hqueue⟩ := (hquiet.passed gap).refreshed.end_runs
    have hyields := Yields.of_finished hfinished
    rw [hqueue] at hyields
    refine ⟨_, u, ?_, find_runs hquiet hgap hrest (by decide)
      (fun heq => absurd heq (by decide)) hrun,
      fun hgoing => absurd (hfinished.symm.trans hgoing) (by decide), hyields⟩
    rw [ht.queue, List.append_assoc]
    rfl

/-- The colon after a key, at which the start of the key is still possible. -/
theorem colon {u : Tokenizer} {before : List Token} {name : Token} {start : KeyStart}
    (h : Goes (levels + 1) false back later) (hcalm : Calm (levels + 1) u)
    (hrest : u.cursor.rest = ':' :: back) (hqueue : u.queue = before ++ [name])
    (hstart : u.keyStart = some start) (hnumber : start.number = u.taken + before.length)
    (hfresh : isStale u.cursor start = false) :
    Yields u (before ++ [.key, name, .value] ++ later) := by
  refine Continues.yields hcalm fun given t ht => ?_
  have hquiet := ht.calm (levels + 1) hcalm
  have hnoted := ht.kept start hstart hfresh
  have hcertain := ht.certain start hnoted (by omega)
  -- No more is handed on than stands before the key.
  obtain ⟨between, rfl⟩ : ∃ between, before = given ++ between := by
    have hprefix : given <+: before := by
      refine List.prefix_of_prefix_length_le ⟨t.queue, ?_⟩ ⟨[name], hqueue.symm⟩ ?_
      · exact ht.queue.symm
      · rw [hnumber, ht.taken] at hcertain
        omega
    obtain ⟨between, hbetween⟩ := hprefix
    exact ⟨between, hbetween.symm⟩
  have hleft : t.queue = between ++ [name] := by
    have hboth := hqueue.symm.trans ht.queue
    rw [List.append_assoc] at hboth
    exact (List.append_cancel_left hboth).symm
  have hcolon : t.cursor.rest = [] ++ ([':'] ++ back) := by rw [ht.cursor, hrest]; rfl
  have hready := (hquiet.passed []).refreshed
  have hkept : (t.passed []).refreshed.keyStart = some start :=
    (Handed.refreshed t).kept start hnoted (by rwa [ht.cursor])
  have hplace : start.number - t.taken = between.length := by
    rw [hnumber, ht.taken, List.length_append]
    omega
  obtain ⟨u', hrun, hnext, hcursor, hfound⟩ :=
    hready.colon_runs hkept hleft hplace
  have hafter : u'.cursor.rest = back := by
    rw [hcursor]
    exact Cursor.rest_skip (Cursor.rest_skip hcolon)
  have hyields := h.yields u' hnext nofun hafter
  rw [hfound] at hyields
  refine ⟨_, u', ?_, find_runs hquiet isGap_nil hcolon (by decide : ':' ∈ indicators)
    (fun _ => Nat.succ_pos levels) hrun, ?_, hyields⟩
  · simp
  · intro _
    rw [hafter, hcolon]
    simp

/-- A key with its colon, which is not too long to be one. -/
theorem key {s : String} (h : Goes (levels + 1) false back later) (hgap : IsGap gap)
    (hs : Json.Ascii s) (hshort : (Json.quote s).length ≤ 1024) :
    Goes (levels + 1) true (gap ++ (Json.quote s ++ ':' :: back))
      ([.key, .scalar (.whole s) false, .value] ++ later) where
  few := by
    have hlater := h.few
    simp only [List.length_append, List.length_cons, List.length_nil]
    omega
  yields t hcalm hallowed hrest := by
    refine Continues.yields hcalm fun given w hw => ?_
    rw [← hw.cursor] at hrest
    have hquiet := hw.calm (levels + 1) hcalm
    have hname := Cursor.rest_skip hrest
    generalize hready : (w.passed gap).refreshed = ready
    have hcalmReady : Calm (levels + 1) ready := hready ▸ (hquiet.passed gap).refreshed
    have hrestReady : ready.cursor.rest = Json.quote s ++ ':' :: back := by
      rw [← hready]
      exact hname
    have hallowedReady : ready.keyAllowed = true := by
      rw [← hready]
      exact keyAllowed_passed gap (hw.keyAllowed.trans (hallowed rfl))
    obtain ⟨u, hrun, hfound, htaken, hstart⟩ := hcalmReady.string_runs hs hrestReady
    have hstart := hstart hallowedReady
    obtain ⟨hcolon, hindex, hline⟩ := Cursor.skip_of_append hrestReady
    rw [← hfound.cursor] at hcolon hindex hline
    have hfresh : isStale u.cursor ready.startHere = false := by
      have hsame := hline fun c hc => (Json.visible_of_mem_quote hs hc).isBreak
      simp only [isStale, startHere, hsame, hindex]
      simp
      omega
    have hyields := h.colon hfound.calm hcolon hfound.queue hstart (by rw [htaken]; rfl) hfresh
    have hqueue : t.queue = given ++ ready.queue := by
      rw [hw.queue, ← hready]
      rfl
    refine ⟨_, u, ?_, find_runs hquiet hgap hrest (by decide : '"' ∈ indicators)
      (fun heq : '"' = ':' => absurd heq (by decide)) (hready ▸ hrun), ?_, hyields⟩
    · simp [hqueue]
    · intro _
      have hlong : 0 < (Json.quote s).length := Nat.succ_pos _
      rw [hcolon, hrest]
      simp only [List.length_append, List.length_cons]
      omega

end Goes

end Tokenizer
end Yaml

/-! ### The tokens of JSON text -/

namespace Json

mutual

/-- The tokens of a value. -/
def tokens : Json → List Yaml.Token
  | .null => [.scalar (.whole "null") true]
  | .bool value => [.scalar (.whole (String.ofList (boolWord value))) true]
  | .string value => [.scalar (.whole value) false]
  | .array items => .flowSequenceStart :: itemTokens items ++ [.flowSequenceEnd]
  | .object members => .flowMappingStart :: memberTokens members ++ [.flowMappingEnd]

/-- The tokens of items, with those of the commas between them. -/
def itemTokens : List Json → List Yaml.Token
  | [] => []
  | [item] => tokens item
  | item :: rest => tokens item ++ .flowEntry :: itemTokens rest

/-- The tokens of members, with those of the commas between them. -/
def memberTokens : List (String × Json) → List Yaml.Token
  | [] => []
  | [(key, value)] => [.key, .scalar (.whole key) false, .value] ++ tokens value
  | (key, value) :: rest =>
      [.key, .scalar (.whole key) false, .value] ++
        (tokens value ++ .flowEntry :: memberTokens rest)

end

mutual

/-- A value of strings alone, which are those that are spoken of here and, where they are keys,
not too long to be read as keys. -/
def Quoted : Json → Prop
  | .null | .bool _ => False
  | .string value => Ascii value
  | .array items => QuotedItems items
  | .object members => QuotedMembers members

def QuotedItems : List Json → Prop
  | [] => True
  | item :: rest => Quoted item ∧ QuotedItems rest

def QuotedMembers : List (String × Json) → Prop
  | [] => True
  | (key, value) :: rest =>
      (Ascii key ∧ (quote key).length ≤ 1024) ∧ Quoted value ∧ QuotedMembers rest

end

end Json

namespace Yaml
namespace Tokenizer

theorem isGap_newline (depth : Nat) : IsGap (Json.newline depth) := by
  intro c hc
  rcases List.mem_cons.1 hc with rfl | hblank
  · exact Or.inr rfl
  · exact Or.inl (List.eq_of_mem_replicate hblank)

theorem isGap_space : IsGap [' '] := by decide

mutual

/-- The tokens of what is written for a value are its own, whatever follows. -/
theorem goes_value : ∀ (value : Json) (depth : Nat) {levels : Nat} {gap rest : List Char}
    {later : List Token}, value.Quoted → IsGap gap → Goes levels false rest later →
      Goes levels false (gap ++ (value.indentedAt depth ++ rest)) (value.tokens ++ later)
  | .string value, _, _, _, _, _, hvalue, hgap, h => h.string hgap hvalue
  | .array [], _, _, _, _, _, _, hgap, h =>
      (h.closing isGap_nil rfl (by decide)).weaken.opening hgap rfl (by decide)
  | .array (item :: items), depth, levels, gap, rest, later, hvalue, hgap, h => by
      have hclosed : Goes (levels + 1) false (Json.newline depth ++ ']' :: rest)
          (.flowSequenceEnd :: later) := h.closing (isGap_newline depth) rfl (by decide)
      have hopened := (goes_items (item :: items) (depth + 1) hvalue hclosed).weaken.opening
        hgap (rfl : action '[' = _) (by decide)
      simpa [Json.indentedAt, Json.tokens] using hopened
  | .object [], _, _, _, _, _, _, hgap, h =>
      (h.closing isGap_nil rfl (by decide)).weaken.opening hgap rfl (by decide)
  | .object (member :: members), depth, levels, gap, rest, later, hvalue, hgap, h => by
      have hclosed : Goes (levels + 1) false (Json.newline depth ++ '}' :: rest)
          (.flowMappingEnd :: later) := h.closing (isGap_newline depth) rfl (by decide)
      have hopened := (goes_members (member :: members) (depth + 1) hvalue hclosed).opening
        hgap (rfl : action '{' = _) (by decide)
      simpa [Json.indentedAt, Json.tokens] using hopened

theorem goes_items : ∀ (items : List Json) (depth : Nat) {levels : Nat} {rest : List Char}
    {later : List Token}, Json.QuotedItems items → Goes (levels + 1) false rest later →
      Goes (levels + 1) false (Json.indentedItems depth items ++ rest)
        (Json.itemTokens items ++ later)
  | [], _, _, _, _, _, h => h
  | [item], depth, levels, rest, later, hitems, h => by
      have hitem := goes_value item depth hitems.1 (isGap_newline depth) h
      simpa [Json.indentedItems, Json.itemTokens] using hitem
  | item :: next :: items, depth, levels, rest, later, hitems, h => by
      have hlater := (goes_items (next :: items) depth hitems.2 h).weaken.comma
      have hitem := goes_value item depth hitems.1 (isGap_newline depth) hlater
      simpa [Json.indentedItems, Json.itemTokens] using hitem

theorem goes_members : ∀ (members : List (String × Json)) (depth : Nat) {levels : Nat}
    {rest : List Char} {later : List Token}, Json.QuotedMembers members →
      Goes (levels + 1) false rest later →
        Goes (levels + 1) true (Json.indentedMembers depth members ++ rest)
          (Json.memberTokens members ++ later)
  | [], _, _, _, _, _, h => h.weaken
  | [(key, value)], depth, levels, rest, later, hmembers, h => by
      have hvalue := goes_value value depth hmembers.2.1 isGap_space h
      have hkey := hvalue.key (isGap_newline depth) hmembers.1.1 hmembers.1.2
      simpa [Json.indentedMembers, Json.memberTokens] using hkey
  | (key, value) :: next :: members, depth, levels, rest, later, hmembers, h => by
      have hlater := (goes_members (next :: members) depth hmembers.2.2 h).comma
      have hvalue := goes_value value depth hmembers.2.1 isGap_space hlater
      have hkey := hvalue.key (isGap_newline depth) hmembers.1.1 hmembers.1.2
      simpa [Json.indentedMembers, Json.memberTokens] using hkey

end

/-- The tokens of the indented text of a value are its own, and the end.  Spaces and line ends may
follow the text. -/
theorem ofSource_indented {value : Json} {gap : List Char} (h : value.Quoted) (hgap : IsGap gap) :
    TokenStream.ofSource ⟨value.indentedAt 0 ++ gap, none⟩ =
      ⟨value.tokens ++ [.streamEnd], none⟩ := by
  have hgoes := goes_value value 0 h isGap_nil (Goes.nil hgap)
  rw [List.nil_append] at hgoes
  have hstart : Calm 0 { cursor := Cursor.start ⟨value.indentedAt 0 ++ gap, none⟩ } :=
    ⟨rfl, Nat.le_refl _, rfl, rfl, rfl, by simp⟩
  have hfew := hgoes.few
  exact hgoes.yields _ hstart nofun rfl ((value.indentedAt 0 ++ gap).length + 2)
    (4 * (value.indentedAt 0 ++ gap).length + 7) (fun _ => Nat.le_refl _)
    (Nat.le_trans hfew (Nat.add_le_add_left (by decide) _))

end Tokenizer
end Yaml
end ContractAdmission
