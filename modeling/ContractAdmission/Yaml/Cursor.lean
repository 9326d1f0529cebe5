import ContractAdmission.Yaml.Source

/-!
# Reading characters

A cursor is a place in a document.  It counts lines and columns, because tokens
depend on them.  The end of the document reads as a NUL, which no document holds.
-/

namespace ContractAdmission
namespace Yaml

/-- Whether a character ends a line. -/
def isBreak (c : Char) : Bool :=
  c == '\n' || c == '\u0085' || c == '\u2028' || c == '\u2029'

/-- Whether a character ends a line or the document. -/
def isLineEnd (c : Char) : Bool :=
  c == '\x00' || isBreak c

/-- Whether a character is a space, or ends a line or the document. -/
def isSpaceOrEnd (c : Char) : Bool :=
  c == ' ' || isLineEnd c

/-- Whether a character is a blank, or ends a line or the document. -/
def isBlankOrEnd (c : Char) : Bool :=
  c == '\t' || isSpaceOrEnd c

/-- A place in a document. -/
structure Cursor where
  rest : List Char
  fault : Option Fault
  /-- The number of characters of the document. -/
  size : Nat := rest.length
  index : Nat := 0
  line : Nat := 0
  column : Nat := 0
  deriving DecidableEq, Repr

namespace Cursor

/-- The start of a document. -/
def start (source : Source) : Cursor := { rest := source.chars, fault := source.fault }

/-- The place after the next character.  A byte order mark takes no column. -/
def next (cursor : Cursor) : Cursor :=
  match cursor.rest with
  | [] => cursor
  | c :: rest =>
      let next := { cursor with rest := rest, index := cursor.index + 1 }
      if isBreak c then { next with line := cursor.line + 1, column := 0 }
      else if c = '\ufeff' then next
      else { next with column := cursor.column + 1 }

/-- The place some characters later. -/
def skip : Nat → Cursor → Cursor
  | 0, cursor => cursor
  | count + 1, cursor => skip count cursor.next

end Cursor

/-- A computation that moves a cursor and may meet a fault. -/
abbrev Lexer (α : Type) := StateT Cursor (Except Fault) α

namespace Lexer

/-- The characters make no token. -/
def refuse {α : Type} : Lexer α := throw .token

/-- Meet the fault of the document, if it has one. -/
def meetFault : Lexer Unit := do
  match (← get).fault with
  | some fault => throw fault
  | none => return ()

/-- The character at a distance. -/
def peekAt (distance : Nat) : Lexer Char := do
  match (← get).rest[distance]? with
  | some c => return c
  | none => meetFault; return '\x00'

/-- The next character. -/
def peek : Lexer Char := peekAt 0

/-- Move on.  The character after the ones that are left behind has to be
there. -/
def advance (count : Nat) : Lexer Unit := do
  let cursor := (← get).skip count
  set cursor
  if cursor.rest = [] then meetFault

/-- Move past the characters of a class and give them. -/
def takeWhile (p : Char → Bool) : Lexer (List Char) := do
  let taken := (← get).rest.takeWhile p
  advance taken.length
  return taken

/-- Move past the characters of a class. -/
def skipWhile (p : Char → Bool) : Lexer Unit := do
  let _ ← takeWhile p

/-- A number of steps that no loop over the rest of the document exceeds. -/
def bound : Lexer Nat := do
  return (← get).size + 1

/-- Move past a line end, if there is one, and give the character that it stands
for. -/
def lineBreak : Lexer (List Char) := do
  let c ← peek
  if c = '\n' ∨ c = '\u0085' then
    advance 1
    return ['\n']
  else if isBreak c then
    advance 1
    return [c]
  else return []

/-- Whether the mark that separates documents is next. -/
def atSeparator : Lexer Bool := do
  let cursor ← get
  let mark := cursor.rest.take 3
  if mark.length < 3 then meetFault
  if mark = ['-', '-', '-'] ∨ mark = ['.', '.', '.'] then
    return isBlankOrEnd (← peekAt 3)
  else return false

end Lexer
end Yaml
end ContractAdmission
