import ContractAdmission.Yaml.Cursor

/-!
# Scalars

The texts that a document can hold: in single or double quotes, plain, and in
blocks of lines.  A line end inside a quoted or plain scalar is a space, and
every further one stands for itself.

An escape by code can spell one half of a pair, which is no character.  So what stands
between quotes is read as codes, and `CodeText` tells the texts of characters from those
with such a code in them.
-/

namespace ContractAdmission
namespace Yaml

/-- A text of codes: one of characters, or one with a code that no character has. -/
inductive CodeText where
  | whole (text : String)
  | halved (codes : List Nat) (h : ∃ code ∈ codes, ¬ code.isValidChar)
  deriving DecidableEq, Repr

namespace CodeText

/-- The codes of characters. -/
def codes (chars : List Char) : List Nat := chars.map Char.toNat

/-- The text of codes. -/
def ofCodes (codes : List Nat) : CodeText :=
  if h : ∃ code ∈ codes, ¬ code.isValidChar then .halved codes h
  else .whole (String.ofList (codes.map Char.ofNat))

theorem codes_append (first second : List Char) :
    codes (first ++ second) = codes first ++ codes second :=
  List.map_append

theorem codes_cons (c : Char) (rest : List Char) : codes (c :: rest) = c.toNat :: codes rest :=
  rfl

/-- The codes of characters are a text of these characters. -/
theorem ofCodes_codes (chars : List Char) :
    ofCodes (codes chars) = .whole (String.ofList chars) := by
  have hvalid : ¬ ∃ code ∈ codes chars, ¬ code.isValidChar := by
    rintro ⟨code, hcode, hnone⟩
    obtain ⟨c, -, rfl⟩ := List.mem_map.1 hcode
    exact hnone c.valid
  rw [ofCodes, dif_neg hvalid, codes, List.map_map]
  simp [Function.comp_def]

end CodeText

namespace Lexer

/-- Line ends and the blanks after each of them, inside quotes.  The mark that
separates documents cannot stand there. -/
def quotedBreaks : Nat → Lexer (List Char)
  | 0 => return []
  | bound + 1 => do
      if ← atSeparator then refuse
      skipWhile fun c => c == ' ' || c == '\t'
      let found ← lineBreak
      if found = [] then return []
      return found ++ (← quotedBreaks bound)

/-- What a line end and the line ends after it stand for. -/
def foldBreaks (first later : List Char) : List Char :=
  if first ≠ ['\n'] then first ++ later
  else if later = [] then [' ']
  else later

/-- Blanks or line ends inside quotes. -/
def quotedSpaces : Lexer (List Char) := do
  let blanks ← takeWhile fun c => c == ' ' || c == '\t'
  let c ← peek
  if c = '\x00' then refuse
  else if isBreak c then
    let first ← lineBreak
    let later ← quotedBreaks (← bound)
    return foldBreaks first later
  else return blanks

/-- The character that a one letter escape stands for. -/
def escaped? (c : Char) : Option Char :=
  match c with
  | '0' => some '\x00'
  | 'a' => some '\x07'
  | 'b' => some '\x08'
  | 't' => some '\t'
  | '\t' => some '\t'
  | 'n' => some '\n'
  | 'v' => some '\x0b'
  | 'f' => some '\x0c'
  | 'r' => some '\r'
  | 'e' => some '\x1b'
  | ' ' => some ' '
  | '"' => some '"'
  | '\\' => some '\\'
  | '/' => some '/'
  | 'N' => some '\u0085'
  | '_' => some '\u00a0'
  | 'L' => some '\u2028'
  | 'P' => some '\u2029'
  | _ => none

/-- The number of digits that an escape by code has. -/
def escapeDigits? (c : Char) : Option Nat :=
  match c with
  | 'x' => some 2
  | 'u' => some 4
  | 'U' => some 8
  | _ => none

/-- The value of a hexadecimal digit. -/
def hexValue? (c : Char) : Option Nat :=
  let n := c.toNat
  if 0x30 ≤ n ∧ n ≤ 0x39 then some (n - 0x30)
  else if 0x61 ≤ n ∧ n ≤ 0x66 then some (n - 0x57)
  else if 0x41 ≤ n ∧ n ≤ 0x46 then some (n - 0x37)
  else none

/-- The number that the next hexadecimal digits are.  The cursor does not
move. -/
def peekHex (count : Nat) : Lexer Nat :=
  (List.range count).foldlM (fun value place => do
    match hexValue? (← peekAt place) with
    | some digit => return 0x10 * value + digit
    | none => refuse) 0

/-- A code, which has to be small enough. -/
def checkedCode (code : Nat) : Lexer Nat :=
  if 0x7fffffff < code then throw .overflow
  else if 0x10ffff < code then throw .impossibleValue
  else return code

/-- What follows a backslash between double quotes. -/
def escape : Lexer (List Nat) := do
  let c ← peek
  match escaped? c with
  | some value => advance 1; return [value.toNat]
  | none =>
      match escapeDigits? c with
      | some count =>
          advance 1
          let code ← checkedCode (← peekHex count)
          advance count
          return [code]
      | none =>
          if isBreak c then
            let _ ← lineBreak
            return CodeText.codes (← quotedBreaks (← bound))
          else refuse

/-- Whether a character stands for itself inside quotes. -/
def isQuotable (c : Char) : Bool :=
  !(c == '\'' || c == '"' || c == '\\' || isBlankOrEnd c)

/-- The codes inside quotes up to a blank, a line end, or the closing quote. -/
def quotedWord (double : Bool) : Nat → Lexer (List Nat)
  | 0 => return []
  | bound + 1 => do
      let plain := CodeText.codes (← takeWhile isQuotable)
      let c ← peek
      if c = '\'' then
        if double then
          advance 1
          return plain ++ c.toNat :: (← quotedWord double bound)
        else if (← peekAt 1) = '\'' then
          advance 2
          return plain ++ c.toNat :: (← quotedWord double bound)
        else return plain
      else if c = '"' ∧ ¬ double then
        advance 1
        return plain ++ c.toNat :: (← quotedWord double bound)
      else if c = '\\' then
        advance 1
        let codes ← if double then escape else pure [c.toNat]
        return plain ++ codes ++ (← quotedWord double bound)
      else return plain

/-- Words and the spaces between them up to the closing quote. -/
def quotedWords (double : Bool) (quote : Char) : Nat → Lexer (List Nat)
  | 0 => return []
  | limit + 1 => do
      let word ← quotedWord double (← bound)
      if (← peek) = quote then return word
      let spaces ← quotedSpaces
      return word ++ CodeText.codes spaces ++ (← quotedWords double quote limit)

/-- A scalar in quotes. -/
def quoted (double : Bool) : Lexer CodeText := do
  let quote ← peek
  advance 1
  let codes ← quotedWords double quote (← bound)
  advance 1
  return .ofCodes codes

/-- The number of characters of a plain word.  It ends before a blank, and before
a colon that a blank follows; inside brackets it ends before punctuation too. -/
def plainLength (inFlow : Bool) : List Char → Nat
  | [] => 0
  | c :: rest =>
      let colon := c == ':' &&
        match rest with
        | [] => true
        | next :: _ =>
            isBlankOrEnd next || (inFlow && (",[]\x7b\x7d".toList.contains next))
      if isBlankOrEnd c || colon || (inFlow && ",?[]\x7b\x7d".toList.contains c) then 0
      else plainLength inFlow rest + 1

/-- A plain word. -/
def plainWord (inFlow : Bool) : Lexer (List Char) := do
  let cursor ← get
  let count := plainLength inFlow cursor.rest
  if cursor.rest.drop count = [':'] then meetFault
  advance count
  return cursor.rest.take count

/-- Line ends and spaces between the lines of a plain scalar.  Nothing is given
when the mark that separates documents is met. -/
def plainBreaks : Nat → Lexer (Option (List Char))
  | 0 => return some []
  | bound + 1 => do
      skipWhile (· == ' ')
      let found ← lineBreak
      if found = [] then return some []
      if ← atSeparator then return none
      return (← plainBreaks bound).map (found ++ ·)

/-- The space after a plain word, and whether it has a line end.  The scalar ends
where there is none. -/
def plainSpace : Lexer (List Char × Bool) := do
  let blanks ← takeWhile (· == ' ')
  let first ← lineBreak
  if first = [] then return (blanks, false)
  if ← atSeparator then return ([], true)
  match ← plainBreaks (← bound) with
  | none => return ([], true)
  | some later => return (foldBreaks first later, true)

/-- The words of a plain scalar whose lines are indented by at least `indent`,
after a given space, and whether a line end follows the last of them. -/
def plainWords (inFlow : Bool) (indent : Nat) :
    Nat → List Char → Bool → Lexer (List Char × Bool)
  | 0, _, broken => return ([], broken)
  | bound + 1, before, broken => do
      if (← peek) = '#' then return ([], broken)
      let word ← plainWord inFlow
      if word = [] then return ([], broken)
      let (space, broken) ← plainSpace
      if space = [] then return (before ++ word, broken)
      if (← peek) = '#' then return (before ++ word, broken)
      if !inFlow && decide ((← get).column < indent) then return (before ++ word, broken)
      let (later, broken) ← plainWords inFlow indent bound space broken
      return (before ++ word ++ later, broken)

/-- A plain scalar, and whether a line end follows it. -/
def plain (inFlow : Bool) (indent : Nat) : Lexer (List Char × Bool) := do
  plainWords inFlow indent (← bound) [] false

/-- What becomes of the line ends at the end of a block. -/
inductive Chomping where
  | clip
  | strip
  | keep
  deriving DecidableEq, Repr

/-- The mark that says what becomes of the last line ends. -/
def chomping? (c : Char) : Option Chomping :=
  if c = '+' then some .keep else if c = '-' then some .strip else none

/-- An optional mark for the last line ends. -/
def chompingMark : Lexer (Option Chomping) := do
  match chomping? (← peek) with
  | some chomping => advance 1; return some chomping
  | none => return none

/-- An optional digit for the indentation, which cannot be zero. -/
def indentMark : Lexer (Option Nat) := do
  let c ← peek
  if c.isDigit then
    if c = '0' then refuse
    advance 1
    return some (c.toNat - 0x30)
  else return none

/-- The marks after the indicator of a block, in either order. -/
def blockMarks : Lexer (Chomping × Option Nat) := do
  let marks ← do
    match ← chompingMark with
    | some chomping => pure (chomping, ← indentMark)
    | none =>
        match ← indentMark with
        | none => pure (Chomping.clip, none)
        | some indent => pure ((← chompingMark).getD .clip, some indent)
  if isSpaceOrEnd (← peek) then return marks else refuse

/-- Spaces and a comment up to the end of the line. -/
def restOfLine : Lexer Unit := do
  skipWhile (· == ' ')
  if (← peek) = '#' then skipWhile fun c => !isLineEnd c
  if isLineEnd (← peek) then
    let _ ← lineBreak
  else refuse

/-- The empty lines before a block and the greatest column that their spaces, or
those of the first line, reach. -/
def leadingLines : Nat → Nat → Lexer (List Char × Nat)
  | 0, most => return ([], most)
  | bound + 1, most => do
      let c ← peek
      if c = ' ' then
        advance 1
        leadingLines bound (max most (← get).column)
      else
        let found ← lineBreak
        if found = [] then return ([], most)
        let (later, most) ← leadingLines bound most
        return (found ++ later, most)

/-- Move past spaces up to a column. -/
def skipIndent (indent : Nat) : Nat → Lexer Unit
  | 0 => return ()
  | bound + 1 => do
      if (← get).column < indent then
        if (← peek) = ' ' then
          advance 1
          skipIndent indent bound

/-- Empty lines inside a block. -/
def blockBreaks (indent : Nat) : Nat → Lexer (List Char)
  | 0 => return []
  | bound + 1 => do
      skipIndent indent indent
      let found ← lineBreak
      if found = [] then return []
      return found ++ (← blockBreaks indent bound)

/-- Whether a line of a block begins here. -/
def atBlockLine (indent : Nat) : Lexer Bool := do
  return (← get).column = indent && (← peek) ≠ '\x00'

/-- The line end after a line of a block, where the next line follows some empty
ones. -/
def joinLines (folded indented nextIndented : Bool) (ending later : List Char) : List Char :=
  if folded && ending = ['\n'] && !indented && !nextIndented then
    if later = [] then [' '] else []
  else ending

/-- The lines of a block after empty ones: the text, the last line end and the
empty lines after it. -/
def blockLines (folded : Bool) (indent : Nat) :
    Nat → List Char → Lexer (List Char × List Char × List Char)
  | 0, before => return ([], [], before)
  | limit + 1, before => do
      if !(← atBlockLine indent) then return ([], [], before)
      let first ← peek
      let line ← takeWhile fun c => !isLineEnd c
      let ending ← lineBreak
      let later ← blockBreaks indent (← bound)
      if ← atBlockLine indent then
        let next ← peek
        let isIndented := fun c : Char => c == ' ' || c == '\t'
        let joint := joinLines folded (isIndented first) (isIndented next) ending later
        let (text, ending, later) ← blockLines folded indent limit later
        return (before ++ line ++ joint ++ text, ending, later)
      else return (before ++ line, ending, later)

/-- A scalar in a block of lines, which are indented by at least `least`. -/
def block (folded : Bool) (least : Nat) : Lexer (List Char) := do
  advance 1
  let (chomping, indentMark) ← blockMarks
  restOfLine
  let (before, indent) ← do
    match indentMark with
    | some mark =>
        let indent := least + mark - 1
        pure (← blockBreaks indent (← bound), indent)
    | none =>
        let (before, most) ← leadingLines (← bound) 0
        pure (before, max least most)
  let (text, ending, later) ← blockLines folded indent (← bound) before
  match chomping with
  | .strip => return text
  | .clip => return text ++ ending
  | .keep => return text ++ ending ++ later

end Lexer
end Yaml
end ContractAdmission
