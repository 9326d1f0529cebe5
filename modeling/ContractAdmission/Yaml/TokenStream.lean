import ContractAdmission.Yaml.Token

/-!
# The tokens of a document

A token can turn out to begin a key only when the colon after the key is found.
So tokens wait in a queue until it is certain that no key begins at the first of
them.  Indentation opens and closes collections in block context; brackets do in
flow context.

`TokenStream.ofSource` gives the tokens that can be had one after the other and
the fault that is met after the last of them.
-/

namespace ContractAdmission
namespace Yaml

/-- A place at which a key may have begun. -/
structure KeyStart where
  /-- The number of the token that begins there. -/
  number : Nat
  /-- Whether nothing but a key can begin there. -/
  required : Bool
  index : Nat
  line : Nat
  column : Nat
  deriving DecidableEq, Repr

/-- What is known of the tokens of a document at a place in it. -/
structure Tokenizer where
  cursor : Cursor
  /-- The columns of the open block collections, the innermost first. -/
  indents : List Nat := []
  /-- Whether a key may begin here. -/
  keyAllowed : Bool := true
  /-- Where a key may have begun inside the innermost brackets. -/
  keyStart : Option KeyStart := none
  /-- The same for each pair of brackets around them. -/
  outer : List (Option KeyStart) := []
  /-- The tokens that were found and not handed on. -/
  queue : List Token := []
  /-- The number of tokens that were handed on. -/
  taken : Nat := 0
  /-- Whether the end was found. -/
  finished : Bool := false
  deriving DecidableEq, Repr

/-- A computation that finds tokens. -/
abbrev Tokenizing (α : Type) := StateT Tokenizer (Except Fault) α

namespace Tokenizer

/-- Read characters. -/
def lex {α : Type} (lexer : Lexer α) : Tokenizing α := do
  let (value, cursor) ← lexer (← get).cursor
  modify fun state => { state with cursor := cursor }
  return value

/-- The characters make no token. -/
def refuse {α : Type} : Tokenizing α := throw .token

/-- Put a token at the end of the queue. -/
def emit (token : Token) : Tokenizing Unit :=
  modify fun state => { state with queue := state.queue ++ [token] }

/-- Whether a place is inside brackets. -/
def inFlow (state : Tokenizer) : Bool :=
  !state.outer.isEmpty

/-- Whether a key that began at a place would be too long by now, or on another
line. -/
def isStale (cursor : Cursor) (start : KeyStart) : Bool :=
  start.line ≠ cursor.line || decide (1024 < cursor.index - start.index)

/-- A start that is still possible. -/
def fresh (cursor : Cursor) (start : Option KeyStart) : Except Fault (Option KeyStart) :=
  match start with
  | none => .ok none
  | some key =>
      if isStale cursor key then
        if key.required then .error .token else .ok none
      else .ok (some key)

/-- The state without the starts that are not possible any more. -/
def withoutStale (state : Tokenizer) : Except Fault Tokenizer := do
  let keyStart ← fresh state.cursor state.keyStart
  let outer ← state.outer.mapM (fresh state.cursor)
  return { state with keyStart := keyStart, outer := outer }

/-- Forget the starts that are not possible any more. -/
def dropStale : Tokenizing Unit := do
  set (← (← get).withoutStale)

/-- Forget the start inside the innermost brackets. -/
def dropKey : Tokenizing Unit := do
  let state ← get
  match state.keyStart with
  | none => return ()
  | some key =>
      if key.required then refuse
      else set { state with keyStart := none }

/-- Note that a key may begin here. -/
def saveKey : Tokenizing Unit := do
  let state ← get
  if state.keyAllowed then
    dropKey
    let cursor := state.cursor
    let start : KeyStart :=
      { number := state.taken + state.queue.length
        required := !state.inFlow && state.indents.head? = some cursor.column
        index := cursor.index
        line := cursor.line
        column := cursor.column }
    modify fun state => { state with keyStart := some start }

/-- Say whether a key may begin at the next place. -/
def allowKey (allowed : Bool) : Tokenizing Unit :=
  modify fun state => { state with keyAllowed := allowed }

/-- Close the block collections that are indented by more than a column, or all
of them. -/
def unwind (column : Option Nat) : Tokenizing Unit := do
  let state ← get
  if !state.inFlow then
    let closed := match column with
      | none => state.indents
      | some column => state.indents.takeWhile fun indent => decide (column < indent)
    set { state with
      indents := state.indents.drop closed.length
      queue := state.queue ++ closed.map fun _ => Token.blockEnd }

/-- Open a block collection at a column, unless one is open there.  Say whether
it was opened. -/
def indent (column : Nat) : Tokenizing Bool := do
  let state ← get
  let deeper := match state.indents with
    | [] => true
    | current :: _ => decide (current < column)
  if deeper then set { state with indents := column :: state.indents }
  return deeper

/-- Move past spaces, comments and line ends. -/
def skipToToken : Nat → Tokenizing Unit
  | 0 => return ()
  | bound + 1 => do
      lex (Lexer.skipWhile (· == ' '))
      if (← lex Lexer.peek) = '#' then lex (Lexer.skipWhile fun c => !isLineEnd c)
      let found ← lex Lexer.lineBreak
      if found ≠ [] then
        if !(← get).inFlow then allowKey true
        skipToToken bound

/-- The end of the document. -/
def foundEnd : Tokenizing Unit := do
  unwind none
  dropKey
  modify fun state => { state with keyAllowed := false, keyStart := none, outer := [] }
  emit .streamEnd
  modify fun state => { state with finished := true }

/-- A directive. -/
def foundDirective : Tokenizing Unit := do
  unwind none
  dropKey
  allowKey false
  emit (.directive (← lex Lexer.directive))

/-- A mark at the start or the end of a document. -/
def foundMark (token : Token) : Tokenizing Unit := do
  unwind none
  dropKey
  allowKey false
  lex (Lexer.advance 3)
  emit token

/-- An opening bracket. -/
def foundOpening (token : Token) : Tokenizing Unit := do
  saveKey
  modify fun state => { state with outer := state.keyStart :: state.outer, keyStart := none }
  allowKey true
  lex (Lexer.advance 1)
  emit token

/-- A closing bracket. -/
def foundClosing (token : Token) : Tokenizing Unit := do
  dropKey
  modify fun state =>
    match state.outer with
    | [] => state
    | start :: outer => { state with keyStart := start, outer := outer }
  allowKey false
  lex (Lexer.advance 1)
  emit token

/-- A comma inside brackets. -/
def foundFlowEntry : Tokenizing Unit := do
  allowKey true
  dropKey
  lex (Lexer.advance 1)
  emit .flowEntry

/-- In block context a collection may begin here if a key may. -/
def openBlock (token : Token) : Tokenizing Unit := do
  let state ← get
  if !state.inFlow then
    if !state.keyAllowed then refuse
    if ← indent state.cursor.column then emit token

/-- The dash before an entry of a sequence. -/
def foundBlockEntry : Tokenizing Unit := do
  openBlock .blockSequenceStart
  allowKey true
  dropKey
  lex (Lexer.advance 1)
  emit .blockEntry

/-- The question mark before a key. -/
def foundKey : Tokenizing Unit := do
  openBlock .blockMappingStart
  allowKey (!(← get).inFlow)
  dropKey
  lex (Lexer.advance 1)
  emit .key

/-- Put tokens into a queue at a place. -/
def insertAt (queue : List Token) (place : Nat) (tokens : List Token) : List Token :=
  queue.take place ++ tokens ++ queue.drop place

/-- The colon after a key.  If a key may have begun, it did. -/
def foundValue : Tokenizing Unit := do
  let state ← get
  match state.keyStart with
  | some start =>
      set { state with keyStart := none }
      let opened ← if state.inFlow then pure false else indent start.column
      modify fun now => { now with
        queue := insertAt now.queue (start.number - now.taken)
          (if opened then [.blockMappingStart, .key] else [.key]) }
      allowKey false
  | none =>
      openBlock .blockMappingStart
      allowKey (!(← get).inFlow)
      dropKey
  lex (Lexer.advance 1)
  emit .value

/-- A token that can begin a key and after which none can begin. -/
def foundNode (lexer : Lexer Token) : Tokenizing Unit := do
  saveKey
  allowKey false
  emit (← lex lexer)

/-- A plain scalar. -/
def foundPlain : Tokenizing Unit := do
  saveKey
  let state ← get
  let indent := match state.indents with
    | [] => 0
    | current :: _ => current + 1
  let (text, broken) ← lex (Lexer.plain state.inFlow indent)
  allowKey broken
  emit (.scalar (.whole (String.ofList text)) true)

/-- A block scalar. -/
def foundBlock (folded : Bool) : Tokenizing Unit := do
  allowKey true
  dropKey
  let least := match (← get).indents with
    | [] => 1
    | current :: _ => current + 1
  let text ← lex (Lexer.block folded least)
  emit (.scalar (.whole (String.ofList text)) false)

/-- Whether the next character is one and what it asks of those after it
holds. -/
def isNext (c : Char) (after : Lexer Bool) : Tokenizing Bool := do
  if (← lex Lexer.peek) = c then lex after else return false

/-- Whether a blank or the end of a line follows. -/
def blankFollows : Lexer Bool := do
  return isBlankOrEnd (← Lexer.peekAt 1)

/-- Whether an indicator stands on its own: inside brackets it always does. -/
def standsAlone (state : Tokenizer) : Lexer Bool := do
  if state.inFlow then return true
  blankFollows

/-- Whether a plain scalar can begin with a character. -/
def beginsPlain (state : Tokenizer) (c : Char) : Tokenizing Bool := do
  if !(isBlankOrEnd c || "-?:,[]\x7b\x7d#&*!|>'\"%@\x60".toList.contains c) then return true
  let next ← lex (Lexer.peekAt 1)
  return !isBlankOrEnd next && (c == '-' || (!state.inFlow && (c == '?' || c == ':')))

/-- Whether a mark of a document, which begins with a character, is next. -/
def isMark (c : Char) (state : Tokenizer) : Tokenizing Bool := do
  if state.cursor.column = 0 then isNext c Lexer.atSeparator else return false

/-- Find one more token, and those that come with it. -/
def find : Tokenizing Unit := do
  if (← get).cursor.index = 0 then
    if (← lex Lexer.peek) = '\ufeff' then lex (Lexer.advance 1)
  skipToToken (← lex Lexer.bound)
  dropStale
  unwind (some (← get).cursor.column)
  let state ← get
  let atStart := state.cursor.column = 0
  let c ← lex Lexer.peek
  if c = '\x00' then foundEnd
  else if c = '%' ∧ atStart then foundDirective
  else if ← isMark '-' state then foundMark .documentStart
  else if ← isMark '.' state then foundMark .documentEnd
  else if c = '[' then foundOpening .flowSequenceStart
  else if c = '\x7b' then foundOpening .flowMappingStart
  else if c = ']' then foundClosing .flowSequenceEnd
  else if c = '\x7d' then foundClosing .flowMappingEnd
  else if c = ',' then foundFlowEntry
  else if ← isNext '-' blankFollows then foundBlockEntry
  else if ← isNext '?' (standsAlone state) then foundKey
  else if ← isNext ':' (standsAlone state) then foundValue
  else if c = '*' then foundNode (Token.alias <$> Lexer.anchorName)
  else if c = '&' then foundNode (Token.anchor <$> Lexer.anchorName)
  else if c = '!' then foundNode (Token.tag <$> Lexer.tag)
  else if c = '|' ∧ ¬ state.inFlow then foundBlock false
  else if c = '>' ∧ ¬ state.inFlow then foundBlock true
  else if c = '\'' then foundNode ((fun text => .scalar text false) <$> Lexer.quoted false)
  else if c = '"' then foundNode ((fun text => .scalar text false) <$> Lexer.quoted true)
  else if ← beginsPlain state c then foundPlain
  else refuse

/-- Whether the first token of the queue may still turn out to begin a key. -/
def isPending (state : Tokenizer) : Bool :=
  (state.keyStart :: state.outer).any fun start =>
    match start with
    | none => false
    | some key => key.number = state.taken

/-- Find tokens until the first of the queue is certain. -/
def settle : Nat → Tokenizing Unit
  | 0 => return ()
  | bound + 1 => do
      let state ← get
      if !state.finished then
        if state.queue = [] then
          find
          settle bound
        else
          dropStale
          if (← get).isPending then
            find
            settle bound

end Tokenizer

/-- The tokens that can be had, and the fault that is met after them. -/
structure TokenStream where
  tokens : List Token
  fault : Option Fault := none
  deriving DecidableEq, Repr

namespace TokenStream

/-- The tokens from a state on. -/
def collect : Nat → Tokenizer → TokenStream
  | 0, _ => ⟨[], none⟩
  | bound + 1, state =>
      match Tokenizer.settle (state.cursor.size + 2) state with
      | .error fault => ⟨[], some fault⟩
      | .ok (_, next) =>
          match next.queue with
          | [] => ⟨[], none⟩
          | token :: queue =>
              let later := collect bound { next with queue := queue, taken := next.taken + 1 }
              ⟨token :: later.tokens, later.fault⟩

/-- The tokens of a document.  Each character gives rise to at most four tokens,
and so does the end. -/
def ofSource (source : Source) : TokenStream :=
  collect (4 * source.chars.length + 8) { cursor := Cursor.start source }

end TokenStream
end Yaml
end ContractAdmission
