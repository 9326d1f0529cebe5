import ContractAdmission.Proofs.JsonText
import ContractAdmission.Yaml.Scalar
import Mathlib.Algebra.Group.Nat.Defs

/-!
# JSON strings as quoted scalars

A string of JSON whose characters are those of ASCII up to the tilde is a scalar in double
quotes, and as a scalar it has the text that it has as a string.  Every escape of the one means
the same in the other, and a blank between quotes stands for itself where no line ends.

* `Runs` — a computation that ends in a state with a value, with a rule for each combinator.
* `Cursor.skip_of_append` — what moving past a part of the text changes.
* `Json.Ascii` — the strings that are spoken of.
* `Lexer.quoted_runs` — such a string is read up to its closing quote.
-/

namespace ContractAdmission

/-! ### Computations with a state -/

/-- A computation that is started in a state ends in another with a value. -/
def Runs {σ ε α : Type} (action : StateT σ (Except ε) α) (before : σ) (value : α) (after : σ) :
    Prop :=
  action.run before = .ok (value, after)

namespace Runs

variable {σ ε α β : Type} {before middle after : σ} {a : α} {b : β}
  {first : StateT σ (Except ε) α}

theorem pure (a : α) (state : σ) : Runs (ε := ε) (Pure.pure a) state a state := rfl

/-- The second of two computations starts where the first one ends. -/
theorem run_bind {next : α → StateT σ (Except ε) β} (h : Runs first before a middle) :
    (first >>= next).run before = (next a).run middle := by
  have hbind : (first >>= next).run before =
      first.run before >>= fun result => (next result.1).run result.2 := rfl
  rw [hbind, h]
  rfl

theorem bind {next : α → StateT σ (Except ε) β} (h : Runs first before a middle)
    (h' : Runs (next a) middle b after) : Runs (first >>= next) before b after :=
  (run_bind h).trans h'

theorem map {f : α → β} (h : Runs first before a after) :
    Runs (f <$> first) before (f a) after := by
  have hmap : (f <$> first).run before =
      (fun result => (f result.1, result.2)) <$> first.run before := rfl
  rw [Runs, hmap, h]
  rfl

theorem get (state : σ) : Runs (ε := ε) MonadState.get state state state := rfl

theorem modified (f : σ → σ) (state : σ) :
    Runs (ε := ε) (modify f) state ⟨⟩ (f state) := rfl

/-- Where a condition holds, the other branch is not taken. -/
theorem ifTrue {p : Prop} [Decidable p] {yes no : StateT σ (Except ε) α} (hp : p)
    (h : Runs yes before a after) : Runs (if p then yes else no) before a after := by
  rwa [if_pos hp]

theorem ifFalse {p : Prop} [Decidable p] {yes no : StateT σ (Except ε) α} (hp : ¬ p)
    (h : Runs no before a after) : Runs (if p then yes else no) before a after := by
  rwa [if_neg hp]

theorem byCases {p : Prop} [Decidable p] {yes no : StateT σ (Except ε) α}
    (hyes : p → Runs yes before a after) (hno : ¬ p → Runs no before a after) :
    Runs (if p then yes else no) before a after := by
  by_cases hp : p
  · exact ifTrue hp (hyes hp)
  · exact ifFalse hp (hno hp)

/-- A test that holds decides which branch is taken, and may itself move the state. -/
theorem testTrue {test : StateT σ (Except ε) Bool} {yes no : StateT σ (Except ε) α}
    (htest : Runs test before true middle) (h : Runs yes middle a after) :
    Runs (test >>= fun found => if found = true then yes else no) before a after :=
  bind htest (ifTrue rfl h)

theorem testFalse {test : StateT σ (Except ε) Bool} {yes no : StateT σ (Except ε) α}
    (htest : Runs test before false middle) (h : Runs no middle a after) :
    Runs (test >>= fun found => if found = true then yes else no) before a after :=
  bind htest (ifFalse Bool.false_ne_true h)

end Runs

/-- A list is a front part whose items all have a property and a back part whose first item
has it not. -/
theorem exists_split {α : Type} (p : α → Prop) (items : List α) :
    ∃ front back, items = front ++ back ∧ (∀ item ∈ front, p item) ∧
      ∀ item rest, back = item :: rest → ¬ p item := by
  induction items with
  | nil => exact ⟨[], [], rfl, by simp, by simp⟩
  | cons item rest ih =>
      by_cases hitem : p item
      · obtain ⟨front, back, rfl, hfront, hback⟩ := ih
        exact ⟨item :: front, back, rfl, List.forall_mem_cons.2 ⟨hitem, hfront⟩, hback⟩
      · refine ⟨[], item :: rest, rfl, by simp, ?_⟩
        rintro other later ⟨⟩
        exact hitem

namespace Yaml

/-! ### Moving through a text -/

namespace Cursor

theorem skip_add (m n : Nat) (cursor : Cursor) :
    cursor.skip (m + n) = (cursor.skip m).skip n := by
  induction m generalizing cursor with
  | zero =>
      rw [Nat.zero_add]
      rfl
  | succ m ih =>
      rw [Nat.succ_add]
      exact ih cursor.next

@[simp] theorem fault_next (cursor : Cursor) : cursor.next.fault = cursor.fault := by
  unfold next
  split
  · rfl
  · split_ifs <;> rfl

@[simp] theorem size_next (cursor : Cursor) : cursor.next.size = cursor.size := by
  unfold next
  split
  · rfl
  · split_ifs <;> rfl

theorem next_of_cons {cursor : Cursor} {c : Char} {rest : List Char}
    (h : cursor.rest = c :: rest) :
    cursor.next.rest = rest ∧ cursor.next.index = cursor.index + 1 ∧
      (isBreak c = false → cursor.next.line = cursor.line) := by
  unfold next
  rw [h]
  dsimp only
  split_ifs with hbreak hmark
  · exact ⟨rfl, rfl, fun hnot => absurd hbreak (by simp [hnot])⟩
  · exact ⟨rfl, rfl, fun _ => rfl⟩
  · exact ⟨rfl, rfl, fun _ => rfl⟩

@[simp] theorem fault_skip (count : Nat) (cursor : Cursor) :
    (cursor.skip count).fault = cursor.fault := by
  induction count generalizing cursor with
  | zero => rfl
  | succ count ih => rw [skip, ih, fault_next]

@[simp] theorem size_skip (count : Nat) (cursor : Cursor) :
    (cursor.skip count).size = cursor.size := by
  induction count generalizing cursor with
  | zero => rfl
  | succ count ih => rw [skip, ih, size_next]

/-- Moving past the front of a text leaves the back, and stays on the line if no line ends in
the front. -/
theorem skip_of_append {cursor : Cursor} {front back : List Char}
    (h : cursor.rest = front ++ back) :
    (cursor.skip front.length).rest = back ∧
      (cursor.skip front.length).index = cursor.index + front.length ∧
      ((∀ c ∈ front, isBreak c = false) →
        (cursor.skip front.length).line = cursor.line) := by
  induction front generalizing cursor with
  | nil => exact ⟨h, rfl, fun _ => rfl⟩
  | cons c front ih =>
      obtain ⟨hrest, hindex, hline⟩ := next_of_cons h
      obtain ⟨hback, hcount, hsame⟩ := ih hrest
      refine ⟨hback, ?_, ?_⟩
      · rw [List.length_cons, skip, hcount, hindex]
        omega
      · intro hfront
        obtain ⟨hc, hlater⟩ := List.forall_mem_cons.1 hfront
        rw [List.length_cons, skip, hsame hlater, hline hc]

theorem rest_skip {cursor : Cursor} {front back : List Char} (h : cursor.rest = front ++ back) :
    (cursor.skip front.length).rest = back :=
  (skip_of_append h).1

/-- No more is left than there was. -/
theorem length_rest_skip_le {cursor : Cursor} (h : cursor.rest.length ≤ cursor.size) (count : Nat) :
    (cursor.skip count).rest.length ≤ (cursor.skip count).size := by
  induction count generalizing cursor with
  | zero => exact h
  | succ count ih =>
      refine ih ?_
      rw [size_next]
      cases hrest : cursor.rest with
      | nil => rwa [next, hrest, hrest, ← hrest]
      | cons c rest =>
          rw [hrest, List.length_cons] at h
          rw [(next_of_cons hrest).1]
          omega

end Cursor

namespace Lexer

variable {cursor : Cursor}

/-! ### Single steps -/

theorem peekAt_runs {distance : Nat} {c : Char} (h : cursor.rest[distance]? = some c) :
    Runs (peekAt distance) cursor c cursor := by
  refine Runs.bind (Runs.get cursor) ?_
  rw [h]
  exact Runs.pure c cursor

theorem peek_runs {c : Char} {rest : List Char} (h : cursor.rest = c :: rest) :
    Runs peek cursor c cursor :=
  peekAt_runs (by rw [h]; rfl)

theorem meetFault_runs (h : cursor.fault = none) : Runs meetFault cursor ⟨⟩ cursor := by
  refine Runs.bind (Runs.get cursor) ?_
  rw [h]
  exact Runs.pure _ cursor

theorem advance_runs (h : cursor.fault = none) (count : Nat) :
    Runs (advance count) cursor ⟨⟩ (cursor.skip count) := by
  have hset : Runs (set (cursor.skip count) : Lexer PUnit) cursor ⟨⟩ (cursor.skip count) := rfl
  refine Runs.bind (Runs.get cursor) (Runs.bind hset ?_)
  split
  · exact meetFault_runs (by rw [Cursor.fault_skip, h])
  · exact Runs.pure _ _

theorem takeWhile_runs (h : cursor.fault = none) {p : Char → Bool} {front back : List Char}
    (hrest : cursor.rest = front ++ back) (hfront : ∀ c ∈ front, p c = true)
    (hback : ∀ c, back.head? = some c → p c = false) :
    Runs (takeWhile p) cursor front (cursor.skip front.length) := by
  have hstop : back.takeWhile p = [] := by
    cases back with
    | nil => rfl
    | cons c back => exact List.takeWhile_cons_of_neg (by simp [hback c rfl])
  have htaken : cursor.rest.takeWhile p = front := by
    rw [hrest, List.takeWhile_append_of_pos hfront, hstop, List.append_nil]
  refine Runs.bind (Runs.get cursor) ?_
  rw [htaken]
  exact Runs.bind (advance_runs h _) (Runs.pure _ _)

theorem bound_runs (cursor : Cursor) : Runs bound cursor (cursor.size + 1) cursor :=
  Runs.bind (Runs.get cursor) (Runs.pure _ cursor)

end Lexer
end Yaml

/-! ### How characters are spelled -/

@[simp] theorem Text.length_hexDigits (width n : Nat) :
    (Text.hexDigits width n).length = width := by
  induction width generalizing n with
  | zero => rfl
  | succ width ih => rw [hexDigits, List.length_append, ih, List.length_singleton]

namespace Json

/-- A string whose characters have codes up to that of the tilde. -/
def Ascii (s : String) : Prop := ∀ c ∈ s.toList, c.toNat ≤ 0x7e

instance : DecidablePred Ascii := fun s =>
  List.decidableBAll (fun c : Char => c.toNat ≤ 0x7e) s.toList

/-- A character that is neither a control character nor beyond the tilde. -/
def Visible (c : Char) : Prop := 0x20 ≤ c.toNat ∧ c.toNat ≤ 0x7e

instance : DecidablePred Visible := fun _ => inferInstanceAs (Decidable (_ ∧ _))

theorem Visible.ne {c other : Char} (h : Visible c) (hother : ¬ Visible other) : c ≠ other :=
  fun heq => hother (heq ▸ h)

theorem Visible.isBreak {c : Char} (h : Visible c) : Yaml.isBreak c = false := by
  have hfeed : c ≠ '\n' := h.ne (by decide)
  have hnext : c ≠ '\u0085' := h.ne (by decide)
  have hline : c ≠ '\u2028' := h.ne (by decide)
  have hparagraph : c ≠ '\u2029' := h.ne (by decide)
  simp [Yaml.isBreak, hfeed, hnext, hline, hparagraph]

theorem Visible.isQuotable {c : Char} (h : Visible c) (hblank : c ≠ ' ') (hsingle : c ≠ '\'')
    (hdouble : c ≠ '"') (hslash : c ≠ '\\') : Yaml.Lexer.isQuotable c = true := by
  have htab : c ≠ '\t' := h.ne (by decide)
  have hend : c ≠ '\x00' := h.ne (by decide)
  simp [Yaml.Lexer.isQuotable, Yaml.isBlankOrEnd, Yaml.isSpaceOrEnd, Yaml.isLineEnd, h.isBreak,
    htab, hend, hblank, hsingle, hdouble, hslash]

theorem toNat_hexDigit_le : ∀ digit < 16, (Text.hexDigit digit).toNat ≤ 0x7e := by decide

theorem toNat_le_of_mem_hexDigits {c : Char} {width n : Nat} (h : c ∈ Text.hexDigits width n) :
    c.toNat ≤ 0x7e := by
  induction width generalizing n with
  | zero => exact absurd h List.not_mem_nil
  | succ width ih =>
      rw [Text.hexDigits, List.mem_append, List.mem_singleton] at h
      rcases h with h | rfl
      · exact ih h
      · exact toNat_hexDigit_le _ (Nat.mod_lt n (by decide))

/-- An escape letter stands for the same in a quoted scalar. -/
theorem escaped?_of_escaped? {letter c : Char} (h : escaped? letter = some c) :
    Yaml.Lexer.escaped? letter = some c ∧ letter.toNat ≤ 0x7e := by
  have hletters : ∀ pair ∈ [('"', '"'), ('\\', '\\'), ('/', '/'), ('b', '\x08'), ('f', '\x0c'),
      ('n', '\n'), ('r', '\r'), ('t', '\t')],
      Yaml.Lexer.escaped? pair.1 = some pair.2 ∧ pair.1.toNat ≤ 0x7e := by decide
  obtain ⟨before, after, htable, -⟩ := List.lookup_eq_some_iff.1 h
  exact hletters (letter, c) (by simp [htable])

theorem visible_of_mem_escapeChar {c shown : Char} (hc : c.toNat ≤ 0x7e)
    (h : shown ∈ escapeChar c) : Visible shown := by
  refine ⟨Nat.le_of_not_lt (plain_escapeChar c shown h), ?_⟩
  rcases escapeChar_cases c with
    ⟨letter, -, -, hescaped, hspelled⟩ | ⟨-, hspelled⟩ | ⟨-, -, -, hspelled⟩
  · rw [hspelled, List.mem_pair] at h
    rcases h with rfl | rfl
    · decide
    · exact (escaped?_of_escaped? hescaped).2
  · rw [hspelled, List.mem_cons, List.mem_cons] at h
    rcases h with rfl | rfl | h
    · decide
    · decide
    · exact toNat_le_of_mem_hexDigits h
  · rw [hspelled, List.mem_singleton] at h
    rwa [h]

theorem visible_of_mem_quote {s : String} (hs : Ascii s) {c : Char} (h : c ∈ quote s) :
    Visible c := by
  rw [quote, List.cons_append, List.mem_cons, List.mem_append, List.mem_singleton] at h
  rcases h with rfl | h | rfl
  · decide
  · obtain ⟨source, hsource, hc⟩ := List.mem_flatMap.1 h
    exact visible_of_mem_escapeChar (hs source hsource) hc
  · decide

theorem length_le_flatMap_escapeChar (chars : List Char) :
    chars.length ≤ (chars.flatMap escapeChar).length := by
  induction chars with
  | nil => exact Nat.le_refl 0
  | cons c rest ih =>
      have hspelled : 0 < (escapeChar c).length := by
        unfold escapeChar
        split_ifs <;> simp
      rw [List.flatMap_cons, List.length_append, List.length_cons]
      omega

/-- A character that stands for itself between quotes of either kind. -/
def Bare (c : Char) : Prop := Visible c ∧ c ≠ '"' ∧ c ≠ '\\' ∧ c ≠ '\''

instance : DecidablePred Bare := fun _ => inferInstanceAs (Decidable (_ ∧ _))

theorem escapeChar_of_visible {c : Char} (hc : Visible c) (hquote : c ≠ '"') (hslash : c ≠ '\\') :
    escapeChar c = [c] := by
  have hback : c ≠ '\x08' := hc.ne (by decide)
  have htab : c ≠ '\t' := hc.ne (by decide)
  have hline : c ≠ '\n' := hc.ne (by decide)
  have hform : c ≠ '\x0c' := hc.ne (by decide)
  have hreturn : c ≠ '\r' := hc.ne (by decide)
  rw [escapeChar, if_neg hquote, if_neg hslash, if_neg hback, if_neg htab, if_neg hline,
    if_neg hform, if_neg hreturn, if_neg (Nat.not_lt.2 hc.1)]

theorem flatMap_escapeChar_of_bare {chars : List Char} (h : ∀ c ∈ chars, Bare c) :
    chars.flatMap escapeChar = chars := by
  induction chars with
  | nil => rfl
  | cons c rest ih =>
      obtain ⟨⟨hvisible, hquote, hslash, -⟩, hrest⟩ := List.forall_mem_cons.1 h
      rw [List.flatMap_cons, escapeChar_of_visible hvisible hquote hslash, ih hrest]
      rfl

/-- Any other character is the single quote, or is spelled by a backslash and a code. -/
theorem escapeChar_of_not_bare {c : Char} (hc : c.toNat ≤ 0x7e) (h : ¬ Bare c) :
    c = '\'' ∨ ∃ code, escapeChar c = '\\' :: code := by
  rcases escapeChar_cases c with
    ⟨letter, -, -, -, hspelled⟩ | ⟨-, hspelled⟩ | ⟨hquote, hslash, hcontrol, -⟩
  · exact Or.inr ⟨_, hspelled⟩
  · exact Or.inr ⟨_, hspelled⟩
  · by_contra hnot
    rw [not_or] at hnot
    exact h ⟨⟨Nat.le_of_not_lt hcontrol, hc⟩, hquote, hslash, hnot.1⟩

end Json

namespace Yaml
namespace Lexer

variable {cursor : Cursor}

/-! ### Words between quotes -/

theorem peekHex_runs {width n : Nat} {rest : List Char} (hn : n < 16 ^ width)
    (hrest : cursor.rest = Text.hexDigits width n ++ rest) :
    Runs (peekHex width) cursor n cursor := by
  have hdigit : ∀ digit < 16, hexValue? (Text.hexDigit digit) = some digit := by decide
  induction width generalizing n rest with
  | zero =>
      rw [Nat.pow_zero] at hn
      obtain rfl : n = 0 := by omega
      exact Runs.pure 0 cursor
  | succ width ih =>
      rw [Text.hexDigits, List.append_assoc] at hrest
      have hfirst := ih (Nat.div_lt_of_lt_mul (by rwa [Nat.pow_succ'] at hn)) hrest
      have hlast : cursor.rest[width]? = some (Text.hexDigit (n % 16)) := by
        rw [hrest, List.getElem?_append_right (Nat.le_of_eq (Text.length_hexDigits width _)),
          Text.length_hexDigits, Nat.sub_self]
        rfl
      rw [peekHex, List.range_succ, List.foldlM_append]
      refine Runs.bind hfirst (Runs.bind (Runs.bind (peekAt_runs hlast) ?_) (Runs.pure n cursor))
      rw [hdigit _ (Nat.mod_lt n (by decide))]
      dsimp only
      rw [Nat.div_add_mod]
      exact Runs.pure n cursor

theorem checkedCode_runs {code : Nat} (h : code ≤ 0x7e) :
    Runs (checkedCode code) cursor code cursor :=
  Runs.ifFalse (by omega) (Runs.ifFalse (by omega) (Runs.pure code cursor))

/-- The escape of a character is read as its code. -/
theorem escape_runs (h : cursor.fault = none) {c : Char} {code rest : List Char}
    (hcode : Json.escapeChar c = '\\' :: code) (hrest : cursor.rest = code ++ rest) :
    Runs escape cursor [c.toNat] (cursor.skip code.length) := by
  rcases Json.escapeChar_cases c with
    ⟨letter, -, -, hescaped, hspelled⟩ | ⟨hcontrol, hspelled⟩ | ⟨-, hslash, -, hspelled⟩
  · obtain rfl : [letter] = code := by simpa [hspelled] using hcode
    refine Runs.bind (peek_runs hrest) ?_
    rw [(Json.escaped?_of_escaped? hescaped).1]
    exact Runs.bind (advance_runs h 1) (Runs.pure _ _)
  · obtain rfl : 'u' :: Text.hexDigits 4 c.toNat = code := by simpa [hspelled] using hcode
    have hlater : cursor.next.rest = Text.hexDigits 4 c.toNat ++ rest :=
      (Cursor.next_of_cons hrest).1
    have hvalue := peekHex_runs (Nat.lt_of_lt_of_le hcontrol (by decide)) hlater
    have hnext : cursor.next.fault = none := by rw [Cursor.fault_next, h]
    refine Runs.bind (peek_runs hrest) (Runs.bind (advance_runs h 1) (Runs.bind hvalue
      (Runs.bind (checkedCode_runs (by omega)) (Runs.bind (advance_runs hnext 4) ?_))))
    rw [List.length_cons, Text.length_hexDigits]
    exact Runs.pure _ _
  · rw [hspelled] at hcode
    exact absurd (List.cons.inj hcode).1 hslash

/-- A single quote is a part of a word. -/
theorem quotedWord_single {bound : Nat} {plain rest : List Char} {later : List Nat}
    {after : Cursor}
    (h : cursor.fault = none) (hplain : ∀ c ∈ plain, isQuotable c = true)
    (hrest : cursor.rest = plain ++ '\'' :: rest)
    (hlater : Runs (quotedWord true bound) (cursor.skip (plain.length + 1)) later after) :
    Runs (quotedWord true (bound + 1)) cursor (CodeText.codes plain ++ '\''.toNat :: later)
      after := by
  rw [Cursor.skip_add] at hlater
  have hfault : (cursor.skip plain.length).fault = none := by rw [Cursor.fault_skip, h]
  have hadvance := advance_runs hfault 1
  exact Runs.bind (takeWhile_runs h hrest hplain (by simp [isQuotable]))
    (Runs.bind (peek_runs (Cursor.rest_skip hrest))
      (Runs.bind hadvance (Runs.bind hlater (Runs.pure _ _))))

/-- The code of a character is a part of a word. -/
theorem quotedWord_code {bound : Nat} {c : Char} {plain code rest : List Char}
    {later : List Nat} {after : Cursor} (h : cursor.fault = none)
    (hplain : ∀ c ∈ plain, isQuotable c = true) (hcode : Json.escapeChar c = '\\' :: code)
    (hrest : cursor.rest = plain ++ '\\' :: (code ++ rest))
    (hlater : Runs (quotedWord true bound) (cursor.skip (plain.length + (code.length + 1)))
      later after) :
    Runs (quotedWord true (bound + 1)) cursor (CodeText.codes plain ++ c.toNat :: later)
      after := by
  have hslash := Cursor.rest_skip hrest
  have hfault : (cursor.skip plain.length).fault = none := by rw [Cursor.fault_skip, h]
  have hadvance := advance_runs hfault 1
  have hinside : ((cursor.skip plain.length).skip 1).fault = none := by
    rw [Cursor.fault_skip, hfault]
  have hvalue := escape_runs hinside hcode (Cursor.next_of_cons hslash).1
  rw [Nat.add_comm code.length, ← Nat.add_assoc, Cursor.skip_add, Cursor.skip_add] at hlater
  have hcodes : CodeText.codes plain ++ c.toNat :: later =
      CodeText.codes plain ++ [c.toNat] ++ later := by simp
  rw [hcodes]
  exact Runs.bind (takeWhile_runs h hrest hplain (by simp [isQuotable]))
    (Runs.bind (peek_runs hslash) (Runs.bind hadvance
      (Runs.bind hvalue (Runs.bind hlater (Runs.pure _ _)))))

/-- Up to a space or the closing quote, the spelling of a word is read as its codes. -/
theorem quotedWord_runs {bound : Nat} {word back : List Char} {last : Char}
    (h : cursor.fault = none) (hbound : word.length < bound)
    (hword : ∀ c ∈ word, c.toNat ≤ 0x7e ∧ c ≠ ' ') (hlast : last = ' ' ∨ last = '"')
    (hrest : cursor.rest = word.flatMap Json.escapeChar ++ last :: back) :
    Runs (quotedWord true bound) cursor (CodeText.codes word)
      (cursor.skip (word.flatMap Json.escapeChar).length) := by
  induction bound generalizing word cursor with
  | zero => omega
  | succ bound ih =>
      obtain ⟨plain, tail, rfl, hplain, htail⟩ := exists_split Json.Bare word
      obtain ⟨-, hblank⟩ := List.forall_mem_append.1 hword
      have hquotable : ∀ c ∈ plain, isQuotable c = true := by
        intro c hc
        obtain ⟨hvisible, hdouble, hslash, hsingle⟩ := hplain c hc
        exact hvisible.isQuotable (hword c (List.mem_append_left tail hc)).2 hsingle hdouble hslash
      rw [List.flatMap_append, Json.flatMap_escapeChar_of_bare hplain] at hrest ⊢
      cases tail with
      | nil =>
          have hend : cursor.rest = plain ++ last :: back := by simpa using hrest
          have hstop : ∀ c, (last :: back).head? = some c → isQuotable c = false := by
            rintro c ⟨⟩
            rcases hlast with rfl | rfl <;> decide
          rw [List.flatMap_nil, List.append_nil]
          refine Runs.bind (takeWhile_runs h hend hquotable hstop)
            (Runs.bind (peek_runs (Cursor.rest_skip hend)) ?_)
          rcases hlast with rfl | rfl
          · exact Runs.pure _ _
          · exact Runs.pure _ _
      | cons c later =>
          obtain ⟨⟨hascii, -⟩, hlater⟩ := List.forall_mem_cons.1 hblank
          rw [List.length_append, List.length_cons] at hbound
          rw [List.flatMap_cons, List.append_assoc, List.append_assoc,
            ← List.append_assoc plain] at hrest
          have hwhole := ih (by rw [Cursor.fault_skip, h]) (by omega) hlater
            (Cursor.rest_skip hrest)
          rw [← Cursor.skip_add, ← List.length_append, List.append_assoc,
            ← List.flatMap_cons] at hwhole
          rw [CodeText.codes_append, CodeText.codes_cons]
          rcases Json.escapeChar_of_not_bare hascii (htail c later rfl) with rfl | ⟨code, hcode⟩
          · have hspelled : Json.escapeChar '\'' = ['\''] := by decide
            rw [hspelled, List.length_append] at hwhole
            rw [hspelled, List.append_assoc] at hrest
            exact quotedWord_single h hquotable hrest hwhole
          · rw [hcode, List.length_append] at hwhole
            rw [hcode, List.append_assoc] at hrest
            exact quotedWord_code h hquotable hcode hrest hwhole

/-! ### Words and the spaces between them -/

/-- Spaces that something visible follows are read as they are. -/
theorem quotedSpaces_runs {spaces back : List Char} {next : Char} (h : cursor.fault = none)
    (hspaces : ∀ c ∈ spaces, c = ' ') (hnext : Json.Visible next) (hblank : next ≠ ' ')
    (hrest : cursor.rest = spaces ++ next :: back) :
    Runs quotedSpaces cursor spaces (cursor.skip spaces.length) := by
  have htab : next ≠ '\t' := hnext.ne (by decide)
  have hend : next ≠ '\x00' := hnext.ne (by decide)
  have htaken := takeWhile_runs (p := fun c => c == ' ' || c == '\t') h hrest
    (fun c hc => by simp [hspaces c hc]) (by simp [hblank, htab])
  refine Runs.bind htaken (Runs.bind (peek_runs (Cursor.rest_skip hrest))
    (Runs.ifFalse hend (Runs.ifFalse ?_ (Runs.pure _ _))))
  simp [hnext.isBreak]

/-- What follows the spaces between words. -/
theorem next_after_spaces {later : List Char} (back : List Char)
    (hlater : ∀ c ∈ later, c.toNat ≤ 0x7e) (hfirst : ∀ c rest, later = c :: rest → c ≠ ' ') :
    ∃ next more, later.flatMap Json.escapeChar ++ '"' :: back = next :: more ∧
      Json.Visible next ∧ next ≠ ' ' := by
  cases later with
  | nil => exact ⟨'"', back, rfl, by decide, by decide⟩
  | cons c rest =>
      have hc := (List.forall_mem_cons.1 hlater).1
      by_cases hbare : Json.Bare c
      · refine ⟨c, rest.flatMap Json.escapeChar ++ '"' :: back, ?_, hbare.1, hfirst c rest rfl⟩
        rw [List.flatMap_cons, Json.escapeChar_of_visible hbare.1 hbare.2.1 hbare.2.2.1]
        rfl
      · rcases Json.escapeChar_of_not_bare hc hbare with rfl | ⟨code, hcode⟩
        · exact ⟨'\'', rest.flatMap Json.escapeChar ++ '"' :: back, rfl, by decide, by decide⟩
        · refine ⟨'\\', code ++ rest.flatMap Json.escapeChar ++ '"' :: back, ?_, by decide,
            by decide⟩
          rw [List.flatMap_cons, hcode]
          rfl

/-- A word and the spaces after it are a part of a text. -/
theorem quotedWords_spaces {limit : Nat} {word spaces more : List Char} {next : Char}
    {later : List Nat} {after : Cursor} (h : cursor.fault = none)
    (hbound : word.length < cursor.size + 1)
    (hword : ∀ c ∈ word, c.toNat ≤ 0x7e ∧ c ≠ ' ') (hspaces : ∀ c ∈ ' ' :: spaces, c = ' ')
    (hnext : Json.Visible next) (hblank : next ≠ ' ')
    (hrest : cursor.rest = word.flatMap Json.escapeChar ++ (' ' :: spaces ++ next :: more))
    (hlater : Runs (quotedWords true '"' limit)
      (cursor.skip ((word.flatMap Json.escapeChar).length + (' ' :: spaces).length)) later after) :
    Runs (quotedWords true '"' (limit + 1)) cursor
      (CodeText.codes word ++ CodeText.codes (' ' :: spaces) ++ later) after := by
  rw [Cursor.skip_add] at hlater
  have hafter := Cursor.rest_skip hrest
  have hgap := quotedSpaces_runs (by rw [Cursor.fault_skip, h]) hspaces hnext hblank hafter
  exact Runs.bind (bound_runs cursor)
    (Runs.bind (quotedWord_runs h hbound hword (Or.inl rfl) hrest)
      (Runs.bind (peek_runs hafter) (Runs.ifFalse (by decide)
        (Runs.bind hgap (Runs.bind hlater (Runs.pure _ _))))))

/-- The spelling of a text is read up to the quote after it. -/
theorem quotedWords_runs {limit : Nat} {chars back : List Char} (h : cursor.fault = none)
    (hsize : cursor.rest.length ≤ cursor.size) (hlimit : chars.length < limit)
    (hchars : ∀ c ∈ chars, c.toNat ≤ 0x7e)
    (hrest : cursor.rest = chars.flatMap Json.escapeChar ++ '"' :: back) :
    Runs (quotedWords true '"' limit) cursor (CodeText.codes chars)
      (cursor.skip (chars.flatMap Json.escapeChar).length) := by
  induction limit generalizing chars cursor with
  | zero => omega
  | succ limit ih =>
      obtain ⟨word, blanks, rfl, hword, hblanks⟩ := exists_split (· ≠ ' ') chars
      have hbound : word.length < cursor.size + 1 := by
        have hspelled := Json.length_le_flatMap_escapeChar word
        rw [hrest, List.flatMap_append, List.length_append, List.length_append] at hsize
        omega
      have hplain : ∀ c ∈ word, c.toNat ≤ 0x7e ∧ c ≠ ' ' := fun c hc =>
        ⟨hchars c (List.mem_append_left blanks hc), hword c hc⟩
      cases blanks with
      | nil =>
          rw [List.append_nil] at hrest ⊢
          exact Runs.bind (bound_runs cursor)
            (Runs.bind (quotedWord_runs h hbound hplain (Or.inr rfl) hrest)
              (Runs.bind (peek_runs (Cursor.rest_skip hrest))
                (Runs.ifTrue rfl (Runs.pure _ _))))
      | cons c rest =>
          obtain rfl : c = ' ' := not_not.1 (hblanks c rest rfl)
          obtain ⟨spaces, later, rfl, hspaces, hlater⟩ := exists_split (· = ' ') rest
          rw [← List.cons_append] at hrest hlimit hchars ⊢
          have hall : ∀ c ∈ ' ' :: spaces, c = ' ' := List.forall_mem_cons.2 ⟨rfl, hspaces⟩
          have hascii : ∀ c ∈ later, c.toNat ≤ 0x7e := fun c hc =>
            hchars c (List.mem_append_right word (List.mem_append_right _ hc))
          obtain ⟨next, more, hnext, hvisible, hblank⟩ := next_after_spaces back hascii hlater
          have hbare : ∀ c ∈ ' ' :: spaces, Json.Bare c := by
            intro c hc
            rw [hall c hc]
            decide
          rw [List.flatMap_append, List.flatMap_append, Json.flatMap_escapeChar_of_bare hbare,
            ← List.append_assoc] at hrest ⊢
          rw [List.append_assoc] at hrest
          have hwhole := ih (by rw [Cursor.fault_skip, h]) (Cursor.length_rest_skip_le hsize _)
            (by simp only [List.length_append, List.length_cons] at hlimit; omega) hascii
            (Cursor.rest_skip hrest)
          rw [hnext, List.append_assoc] at hrest
          rw [← Cursor.skip_add, ← List.length_append, List.append_assoc, List.length_append]
            at hwhole
          rw [CodeText.codes_append, CodeText.codes_append]
          exact quotedWords_spaces h hbound hplain hall hvisible hblank hrest hwhole

/-- A string is read as a scalar in double quotes, whatever follows. -/
theorem quoted_runs {s : String} {back : List Char} (hs : Json.Ascii s)
    (h : cursor.fault = none) (hsize : cursor.rest.length ≤ cursor.size)
    (hrest : cursor.rest = Json.quote s ++ back) :
    Runs (quoted true) cursor (.whole s) (cursor.skip (Json.quote s).length) := by
  have hopen : cursor.rest = '"' :: (s.toList.flatMap Json.escapeChar ++ '"' :: back) := by
    rw [hrest, Json.quote]
    simp
  have hinside : (cursor.skip 1).rest = s.toList.flatMap Json.escapeChar ++ '"' :: back :=
    (Cursor.next_of_cons hopen).1
  have hlength := congrArg List.length hopen
  simp only [List.length_append, List.length_cons] at hlength
  have hspelled := Json.length_le_flatMap_escapeChar s.toList
  have hlimit : s.toList.length < cursor.size + 1 := by omega
  have hwords := quotedWords_runs (by rw [Cursor.fault_skip, h])
    (Cursor.length_rest_skip_le hsize 1) hlimit hs hinside
  have hskip : cursor.skip (Json.quote s).length =
      ((cursor.skip 1).skip (s.toList.flatMap Json.escapeChar).length).skip 1 := by
    rw [← Cursor.skip_add, ← Cursor.skip_add]
    congr 1
    simp [Json.quote]
    omega
  rw [hskip]
  refine Runs.bind (peek_runs hopen) (Runs.bind (advance_runs h 1) (Runs.bind (bound_runs _) ?_))
  rw [Cursor.size_skip]
  refine Runs.bind hwords (Runs.bind (advance_runs (by simp [h]) 1) ?_)
  rw [CodeText.ofCodes_codes, String.ofList_toList]
  exact Runs.pure _ _

end Lexer
end Yaml
end ContractAdmission
