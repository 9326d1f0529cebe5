import ContractAdmission.Json
import Mathlib.Data.List.Basic

/-!
# Reading JSON text back

A reader of JSON text without numbers, and the law that it undoes the compact form: whatever
is written can be read, as nothing else than what it was.  So a text that is written inside a
string cannot end the string and change what follows.

* `read?` — the value of a text.  It admits blanks and every escape but those of surrogates.
* `readChars_flatMap` — the spelling of a string is undone character by character.
* `read?_render` — reading undoes writing.
* `plain_compact` — what is written has no control character; so it is one line.

The reader looks at one value, item or member at a time; the number that it counts down is
at first the length of the text, which is more than there are values in it.
-/

namespace ContractAdmission
namespace Json

/-- What follows the blanks at the beginning of a text. -/
def skipBlanks (text : List Char) : List Char :=
  text.dropWhile fun c => c = ' ' ∨ c = '\t' ∨ c = '\n' ∨ c = '\r'

/-- The value of a hexadecimal digit. -/
def hexValue? (c : Char) : Option Nat :=
  if '0' ≤ c ∧ c ≤ '9' then some (c.toNat - 0x30)
  else if 'a' ≤ c ∧ c ≤ 'f' then some (c.toNat - 0x57)
  else if 'A' ≤ c ∧ c ≤ 'F' then some (c.toNat - 0x37)
  else none

/-- The character with a code in hexadecimal digits, unless the code is that of a surrogate. -/
def coded? (digits : List Char) : Option Char :=
  (digits.mapM hexValue?).bind fun values =>
    let code := values.foldl (fun code value => 16 * code + value) 0
    if code.isValidChar then some (Char.ofNat code) else none

/-- The character that a single one stands for after a backslash. -/
def escaped? (c : Char) : Option Char :=
  [('"', '"'), ('\\', '\\'), ('/', '/'), ('b', '\x08'), ('f', '\x0c'), ('n', '\n'),
    ('r', '\r'), ('t', '\t')].lookup c

/-- The characters of a string up to its closing quote, and the rest of the text. -/
def readChars : List Char → Option (List Char × List Char)
  | [] => none
  | c :: rest =>
      if c = '"' then some ([], rest)
      else if c = '\\' then
        match rest with
        | [] => none
        | letter :: later =>
            if letter = 'u' then
              match later with
              | first :: second :: third :: fourth :: later =>
                  (coded? [first, second, third, fourth]).bind fun char =>
                    (readChars later).map fun (chars, rest) => (char :: chars, rest)
              | _ => none
            else
              (escaped? letter).bind fun char =>
                (readChars later).map fun (chars, rest) => (char :: chars, rest)
      else if c.toNat < 0x20 then none
      else (readChars rest).map fun (chars, rest) => (c :: chars, rest)

/-- The key of a member with its colon, and the rest of the text. -/
def readKey (text : List Char) : Option (String × List Char) :=
  match skipBlanks text with
  | '"' :: rest =>
      match readChars rest with
      | none => none
      | some (chars, rest) =>
          match skipBlanks rest with
          | ':' :: rest => some (String.ofList chars, rest)
          | _ => none
  | _ => none

mutual

/-- The value at the beginning of a text, and the rest of the text. -/
def readValue : Nat → List Char → Option (Json × List Char)
  | 0, _ => none
  | fuel + 1, text =>
      match skipBlanks text with
      | 'n' :: 'u' :: 'l' :: 'l' :: rest => some (.null, rest)
      | 't' :: 'r' :: 'u' :: 'e' :: rest => some (.bool true, rest)
      | 'f' :: 'a' :: 'l' :: 's' :: 'e' :: rest => some (.bool false, rest)
      | '"' :: rest =>
          (readChars rest).map fun (chars, rest) => (.string (String.ofList chars), rest)
      | '[' :: rest =>
          match skipBlanks rest with
          | ']' :: rest => some (.array [], rest)
          | rest => (readItems fuel rest).map fun (items, rest) => (.array items, rest)
      | '{' :: rest =>
          match skipBlanks rest with
          | '}' :: rest => some (.object [], rest)
          | rest => (readMembers fuel rest).map fun (members, rest) => (.object members, rest)
      | _ => none

/-- One item or more, up to the closing bracket, and the rest of the text. -/
def readItems : Nat → List Char → Option (List Json × List Char)
  | 0, _ => none
  | fuel + 1, text =>
      match readValue fuel text with
      | none => none
      | some (item, rest) =>
          match skipBlanks rest with
          | ',' :: rest => (readItems fuel rest).map fun (items, rest) => (item :: items, rest)
          | ']' :: rest => some ([item], rest)
          | _ => none

/-- One member or more, up to the closing brace, and the rest of the text. -/
def readMembers : Nat → List Char → Option (List (String × Json) × List Char)
  | 0, _ => none
  | fuel + 1, text =>
      match readKey text with
      | none => none
      | some (key, rest) =>
          match readValue fuel rest with
          | none => none
          | some (value, rest) =>
              match skipBlanks rest with
              | ',' :: rest =>
                  (readMembers fuel rest).map fun (members, rest) => ((key, value) :: members, rest)
              | '}' :: rest => some ([(key, value)], rest)
              | _ => none

end

/-- The value that a text stands for, if it has nothing but blanks around the value. -/
def read? (text : String) : Option Json :=
  match readValue text.toList.length text.toList with
  | none => none
  | some (value, rest) => if skipBlanks rest = [] then some value else none

/-! ### Strings -/

/-- A character is spelled by an escape letter, by its code, or by itself. -/
theorem escapeChar_cases (c : Char) :
    (∃ letter, letter ≠ 'u' ∧ ¬ letter.toNat < 0x20 ∧ escaped? letter = some c ∧
      escapeChar c = ['\\', letter]) ∨
    (c.toNat < 0x20 ∧ escapeChar c = '\\' :: 'u' :: Text.hexDigits 4 c.toNat) ∨
    (c ≠ '"' ∧ c ≠ '\\' ∧ ¬ c.toNat < 0x20 ∧ escapeChar c = [c]) := by
  unfold escapeChar
  split_ifs with hquote hslash hback htab hline hform hreturn hcontrol
  · exact Or.inl ⟨'"', by subst hquote; decide⟩
  · exact Or.inl ⟨'\\', by subst hslash; decide⟩
  · exact Or.inl ⟨'b', by subst hback; decide⟩
  · exact Or.inl ⟨'t', by subst htab; decide⟩
  · exact Or.inl ⟨'n', by subst hline; decide⟩
  · exact Or.inl ⟨'f', by subst hform; decide⟩
  · exact Or.inl ⟨'r', by subst hreturn; decide⟩
  · exact Or.inr (Or.inl ⟨hcontrol, rfl⟩)
  · exact Or.inr (Or.inr ⟨hquote, hslash, hcontrol, rfl⟩)

theorem coded?_hexDigits : ∀ n < 0x20, coded? (Text.hexDigits 4 n) = some (Char.ofNat n) := by
  decide +kernel

/-- The spelling of a character is read as that character. -/
theorem readChars_escapeChar (c : Char) (text : List Char) :
    readChars (escapeChar c ++ text) =
      (readChars text).map fun (chars, rest) => (c :: chars, rest) := by
  rcases escapeChar_cases c with
    ⟨letter, hletter, -, hescaped, hspelled⟩ | ⟨hcontrol, hspelled⟩ |
      ⟨hquote, hslash, hcontrol, hspelled⟩
  · rw [hspelled, List.cons_append, List.cons_append, List.nil_append, readChars.eq_def]
    simp [hletter, hescaped]
  · have hcoded := coded?_hexDigits c.toNat hcontrol
    rw [Char.ofNat_toNat] at hcoded
    simp only [Text.hexDigits, List.nil_append, List.cons_append] at hcoded hspelled
    rw [hspelled, readChars.eq_def]
    simp [hcoded]
  · rw [hspelled, List.cons_append, List.nil_append, readChars.eq_def]
    simp [hquote, hslash, hcontrol]

/-- A string is read up to the quote that closes it. -/
theorem readChars_flatMap (chars text : List Char) :
    readChars (chars.flatMap escapeChar ++ '"' :: text) = some (chars, text) := by
  induction chars with
  | nil =>
      rw [List.flatMap_nil, List.nil_append, readChars.eq_def]
      simp
  | cons c rest ih =>
      rw [List.flatMap_cons, List.append_assoc, readChars_escapeChar, ih]
      rfl

/-! ### Values -/

/-- A value begins with neither a blank nor a closing bracket. -/
theorem compact_eq_cons (value : Json) :
    ∃ c text, value.compact = c :: text ∧ c ≠ ']' ∧ ∀ rest, skipBlanks (c :: rest) = c :: rest := by
  cases value with
  | null => exact ⟨'n', _, rfl, by decide, fun _ => rfl⟩
  | bool value =>
      cases value with
      | true => exact ⟨'t', _, rfl, by decide, fun _ => rfl⟩
      | false => exact ⟨'f', _, rfl, by decide, fun _ => rfl⟩
  | string value => exact ⟨'"', _, rfl, by decide, fun _ => rfl⟩
  | array items => exact ⟨'[', _, rfl, by decide, fun _ => rfl⟩
  | object members => exact ⟨'{', _, rfl, by decide, fun _ => rfl⟩

theorem compactItems_eq_cons (item : Json) (items : List Json) :
    ∃ c text, compactItems (item :: items) = c :: text ∧ c ≠ ']' ∧
      ∀ rest, skipBlanks (c :: rest) = c :: rest := by
  obtain ⟨c, text, hcompact, hc, hskip⟩ := compact_eq_cons item
  cases items with
  | nil => exact ⟨c, text, hcompact, hc, hskip⟩
  | cons next rest =>
      exact ⟨c, text ++ ',' :: compactItems (next :: rest), by simp [compactItems, hcompact],
        hc, hskip⟩

theorem compactMembers_eq_cons (member : String × Json) (members : List (String × Json)) :
    ∃ text, compactMembers (member :: members) = '"' :: text := by
  cases members with
  | nil => exact ⟨_, rfl⟩
  | cons next rest => exact ⟨_, rfl⟩

theorem readKey_quote (key : String) (text : List Char) :
    readKey (quote key ++ ':' :: text) = some (key, text) := by
  have hchars := readChars_flatMap key.toList (':' :: text)
  have hquote : quote key ++ ':' :: text =
      '"' :: (key.toList.flatMap escapeChar ++ '"' :: ':' :: text) := by
    simp [quote]
  rw [hquote]
  simp [readKey, skipBlanks, hchars]

mutual

/-- What is written for a value is read as that value, whatever follows. -/
theorem readValue_compact : ∀ (value : Json) (fuel : Nat) (text : List Char),
    value.compact.length ≤ fuel → readValue fuel (value.compact ++ text) = some (value, text)
  | value, 0, text, h => by
      obtain ⟨c, rest, hcompact, -, -⟩ := compact_eq_cons value
      simp [hcompact] at h
  | .null, fuel + 1, text, h => rfl
  | .bool true, fuel + 1, text, h => rfl
  | .bool false, fuel + 1, text, h => rfl
  | .string value, fuel + 1, text, h => by
      have hchars := readChars_flatMap value.toList text
      have hquote : (Json.string value).compact ++ text =
          '"' :: (value.toList.flatMap escapeChar ++ '"' :: text) := by
        simp [compact, quote]
      rw [hquote]
      simp [readValue, skipBlanks, hchars]
  | .array [], fuel + 1, text, h => rfl
  | .array (item :: rest), fuel + 1, text, h => by
      have hlength : (compactItems (item :: rest)).length < fuel := by
        simp only [compact, List.length_cons, List.length_append, List.length_nil] at h
        omega
      have hitems := readItems_compactItems (item :: rest) fuel text (by simp) hlength
      obtain ⟨c, later, hcons, hc, hskip⟩ := compactItems_eq_cons item rest
      rw [hcons, List.cons_append] at hitems
      have hopen : ∀ rest, skipBlanks ('[' :: rest) = '[' :: rest := fun _ => rfl
      simp [readValue, compact, hcons, hopen, hskip, hc, hitems]
  | .object [], fuel + 1, text, h => rfl
  | .object (member :: rest), fuel + 1, text, h => by
      have hlength : (compactMembers (member :: rest)).length < fuel := by
        simp only [compact, List.length_cons, List.length_append, List.length_nil] at h
        omega
      have hmembers := readMembers_compactMembers (member :: rest) fuel text (by simp) hlength
      obtain ⟨later, hcons⟩ := compactMembers_eq_cons member rest
      rw [hcons, List.cons_append] at hmembers
      simp [readValue, compact, hcons, skipBlanks, hmembers]

theorem readItems_compactItems : ∀ (items : List Json) (fuel : Nat) (text : List Char),
    items ≠ [] → (compactItems items).length < fuel →
      readItems fuel (compactItems items ++ ']' :: text) = some (items, text)
  | [], _, _, hitems, _ => absurd rfl hitems
  | _, 0, _, _, h => absurd h (Nat.not_lt_zero _)
  | [item], fuel + 1, text, _, h => by
      have hitem := readValue_compact item fuel (']' :: text) (Nat.lt_succ_iff.1 h)
      simp [readItems, compactItems, hitem, skipBlanks]
  | item :: next :: rest, fuel + 1, text, _, h => by
      simp only [compactItems, List.length_append, List.length_cons] at h
      have hitem := readValue_compact item fuel
        (',' :: (compactItems (next :: rest) ++ ']' :: text)) (by omega)
      have hrest := readItems_compactItems (next :: rest) fuel text (by simp) (by omega)
      simp [readItems, compactItems, hitem, hrest, skipBlanks]

theorem readMembers_compactMembers : ∀ (members : List (String × Json)) (fuel : Nat)
    (text : List Char), members ≠ [] → (compactMembers members).length < fuel →
      readMembers fuel (compactMembers members ++ '}' :: text) = some (members, text)
  | [], _, _, hmembers, _ => absurd rfl hmembers
  | _, 0, _, _, h => absurd h (Nat.not_lt_zero _)
  | [(key, value)], fuel + 1, text, _, h => by
      simp only [compactMembers, List.length_append, List.length_cons] at h
      have hkey := readKey_quote key (value.compact ++ '}' :: text)
      have hvalue := readValue_compact value fuel ('}' :: text) (by omega)
      simp [readMembers, compactMembers, hkey, hvalue, skipBlanks]
  | (key, value) :: next :: rest, fuel + 1, text, _, h => by
      simp only [compactMembers, List.length_append, List.length_cons] at h
      have hkey := readKey_quote key
        (value.compact ++ ',' :: (compactMembers (next :: rest) ++ '}' :: text))
      have hvalue := readValue_compact value fuel
        (',' :: (compactMembers (next :: rest) ++ '}' :: text)) (by omega)
      have hrest := readMembers_compactMembers (next :: rest) fuel text (by simp) (by omega)
      simp [readMembers, compactMembers, hkey, hvalue, hrest, skipBlanks]

end

/-- Reading undoes writing. -/
theorem read?_render (value : Json) : read? value.render = some value := by
  have hvalue := readValue_compact value value.compact.length [] (Nat.le_refl _)
  rw [List.append_nil] at hvalue
  simp [read?, render, hvalue, skipBlanks]

example : (read? " [\"a\\u0041\\n\", null ]").map render = some "[\"aA\\n\",null]" := by
  decide +kernel

/-! ### What is written is plain -/

/-- A text without control characters. -/
def Plain (text : List Char) : Prop := ∀ c ∈ text, ¬ c.toNat < 0x20

@[simp] theorem plain_nil : Plain [] := by simp [Plain]

@[simp] theorem plain_cons {c : Char} {text : List Char} :
    Plain (c :: text) ↔ ¬ c.toNat < 0x20 ∧ Plain text := by simp [Plain]

@[simp] theorem plain_append {first second : List Char} :
    Plain (first ++ second) ↔ Plain first ∧ Plain second := by
  simp [Plain, or_imp, forall_and]

theorem plain_hexDigits (width n : Nat) : Plain (Text.hexDigits width n) := by
  have hdigit : ∀ digit < 16, ¬ (Text.hexDigit digit).toNat < 0x20 := by decide
  induction width generalizing n with
  | zero => exact plain_nil
  | succ width ih =>
      have hlast := hdigit (n % 16) (Nat.mod_lt n (by decide))
      simp [Text.hexDigits, ih, hlast]

theorem plain_escapeChar (c : Char) : Plain (escapeChar c) := by
  rcases escapeChar_cases c with
    ⟨letter, -, hletter, -, hspelled⟩ | ⟨-, hspelled⟩ | ⟨-, -, hcontrol, hspelled⟩
  · simp [hspelled, hletter]
  · simp [hspelled, plain_hexDigits]
  · simp [hspelled, hcontrol]

theorem plain_quote (s : String) : Plain (quote s) := by
  have hchars : Plain (s.toList.flatMap escapeChar) := by
    intro c hc
    obtain ⟨source, -, hsource⟩ := List.mem_flatMap.1 hc
    exact plain_escapeChar source c hsource
  simp [quote, hchars]

mutual

/-- What is written for a value has no control character. -/
theorem plain_compact : ∀ value : Json, Plain value.compact
  | .null => by simp [compact]
  | .bool true => by simp [compact, boolWord]
  | .bool false => by simp [compact, boolWord]
  | .string value => plain_quote value
  | .array items => by simp [compact, plain_compactItems items]
  | .object members => by simp [compact, plain_compactMembers members]

theorem plain_compactItems : ∀ items : List Json, Plain (compactItems items)
  | [] => plain_nil
  | [item] => plain_compact item
  | item :: next :: rest => by
      simp [compactItems, plain_compact item, plain_compactItems (next :: rest)]

theorem plain_compactMembers : ∀ members : List (String × Json), Plain (compactMembers members)
  | [] => plain_nil
  | [(key, value)] => by simp [compactMembers, plain_quote, plain_compact value]
  | (key, value) :: next :: rest => by
      simp [compactMembers, plain_quote, plain_compact value,
        plain_compactMembers (next :: rest)]

end

end Json
end ContractAdmission
