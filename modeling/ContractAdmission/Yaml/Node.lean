import ContractAdmission.Yaml.Tag
import ContractAdmission.Yaml.TokenStream

/-!
# Nodes

A document is a tree of nodes.  A node can have an anchor, and an alias stands
for the node whose anchor it names; that node can be one around the alias.

`Document.ofTokens` reads a document from tokens.  A token is looked at only
when the tokens before it make it necessary, so that the first of several faults
is the one that is met.
-/

namespace ContractAdmission
namespace Yaml

/-- A node of a document. -/
inductive Node where
  | scalar (anchor : Option String) (tag : Tag) (text : CodeText)
  | sequence (anchor : Option String) (tag : Tag) (items : List Node)
  | mapping (anchor : Option String) (tag : Tag) (pairs : List (Node × Node))
  | alias (name : String)

/-- The node that stands where nothing is written. -/
def Node.nothing : Node := .scalar none .null (.whole "")

/-- What is known while tokens are read. -/
structure Reading where
  stream : TokenStream
  /-- The anchors that were declared. -/
  anchors : List String := []

/-- A computation that takes tokens. -/
abbrev Parser (α : Type) := StateT Reading (Except Fault) α

/-- The handles of tags and what they stand for. -/
abbrev Handles := List (String × String)

/-- The handles that need no declaration. -/
def defaultHandles : Handles := [("!", "!"), ("!!", Tag.namePrefix)]

namespace Parser

/-- The tokens make no document. -/
def refuse {α : Type} : Parser α := throw .structure

/-- The next token. -/
def peek : Parser Token := do
  let stream := (← get).stream
  match stream.tokens, stream.fault with
  | token :: _, _ => return token
  | [], some fault => throw fault
  | [], none => return .streamEnd

/-- Move past the next token. -/
def next : Parser Unit :=
  modify fun state => { state with stream.tokens := state.stream.tokens.drop 1 }

/-- Declare the anchor of a node, if it has one.  No anchor is declared twice. -/
def declare (anchor : Option String) : Parser Unit := do
  match anchor with
  | none => return ()
  | some name =>
      if (← get).anchors.contains name then throw .reference
      modify fun state => { state with anchors := name :: state.anchors }

/-- An anchor, if one is next. -/
def anchor? : Parser (Option String) := do
  match ← peek with
  | .anchor name => next; return some name
  | _ => return none

/-- A tag, if one is next. -/
def tag? : Parser (Option TagText) := do
  match ← peek with
  | .tag text => next; return some text
  | _ => return none

/-- The anchor and the tag of a node, in either order. -/
def properties : Parser (Option String × Option TagText) := do
  match ← anchor? with
  | some name => return (some name, ← tag?)
  | none =>
      match ← tag? with
      | some text => return (← anchor?, some text)
      | none => return (none, none)

/-- The name of a tag, whose handle has to be known. -/
def tagName (handles : Handles) (text : TagText) : Parser String :=
  match text.handle with
  | none => return text.suffix
  | some handle =>
      match handles.lookup handle with
      | some meaning => return meaning ++ text.suffix
      | none => refuse

/-- The tag that a text has the form of.  With half of a pair in it, it has the form of
nothing else. -/
def formTag : CodeText → Tag
  | .whole text => Tag.ofPlain text
  | .halved _ _ => .str

/-- The tag of a scalar.  A text that is not plain is a string unless a tag says
otherwise; a lone exclamation mark asks for the tag that the text has the form
of. -/
def scalarTag (name : Option String) (text : CodeText) (plain : Bool) : Tag :=
  match name with
  | none => if plain then formTag text else .str
  | some "!" => formTag text
  | some name => Tag.ofName name

/-- The tag of a collection. -/
def collectionTag (name : Option String) (usual : Tag) : Tag :=
  match name with
  | none | some "!" => usual
  | some name => Tag.ofName name

/-- Whether the next token is one of some. -/
def isNext (tokens : List Token) : Parser Bool := do
  return tokens.contains (← peek)

/-- A node, or nothing where one of some tokens is next. -/
def nodeUnless (tokens : List Token) (node : Parser Node) : Parser Node := do
  if ← isNext tokens then return .nothing else node

mutual

/-- A node, in which others can be nested so many levels deep.  A block collection
is read only where one can stand, and so is a sequence that is not indented. -/
def node (handles : Handles) (inBlock unindented : Bool) (levels : Nat) : Nat → Parser Node
  | 0 => refuse
  | bound + 1 => do
      if levels = 0 then throw .tooDeep
      match ← peek with
      | .alias name =>
          next
          if (← get).anchors.contains name then return .alias name
          else throw .reference
      | _ =>
          let (anchor, text) ← properties
          let name ← text.mapM (tagName handles)
          match ← peek with
          | .scalar text plain =>
              next
              declare anchor
              return .scalar anchor (scalarTag name text plain) text
          | .flowSequenceStart =>
              next
              declare anchor
              return .sequence anchor (collectionTag name .seq)
                (← flowItems handles true (levels - 1) bound)
          | .flowMappingStart =>
              next
              declare anchor
              return .mapping anchor (collectionTag name .map)
                (← flowPairs handles true (levels - 1) bound)
          | other =>
              if unindented && other = .blockEntry then
                declare anchor
                return .sequence anchor (collectionTag name .seq)
                  (← unindentedItems handles (levels - 1) bound)
              else if inBlock && other = .blockSequenceStart then
                next
                declare anchor
                return .sequence anchor (collectionTag name .seq)
                  (← blockItems handles (levels - 1) bound)
              else if inBlock && other = .blockMappingStart then
                next
                declare anchor
                return .mapping anchor (collectionTag name .map)
                  (← blockPairs handles (levels - 1) bound)
              else if anchor.isSome || name.isSome then
                declare anchor
                return .scalar anchor (scalarTag name (.whole "") true) (.whole "")
              else refuse
  termination_by structural bound => bound

/-- The items of an indented sequence, and its end. -/
def blockItems (handles : Handles) (levels : Nat) : Nat → Parser (List Node)
  | 0 => refuse
  | bound + 1 => do
      match ← peek with
      | .blockEntry =>
          next
          let item ← nodeUnless [.blockEntry, .blockEnd] (node handles true false levels bound)
          return item :: (← blockItems handles levels bound)
      | .blockEnd => next; return []
      | _ => refuse
  termination_by structural bound => bound

/-- The items of a sequence that is not indented. -/
def unindentedItems (handles : Handles) (levels : Nat) : Nat → Parser (List Node)
  | 0 => refuse
  | bound + 1 => do
      match ← peek with
      | .blockEntry =>
          next
          let item ← nodeUnless [.blockEntry, .key, .value, .blockEnd]
            (node handles true false levels bound)
          return item :: (← unindentedItems handles levels bound)
      | _ => return []
  termination_by structural bound => bound

/-- The pairs of an indented mapping, and its end. -/
def blockPairs (handles : Handles) (levels : Nat) : Nat → Parser (List (Node × Node))
  | 0 => refuse
  | bound + 1 => do
      match ← peek with
      | .key =>
          next
          let key ← nodeUnless [.key, .value, .blockEnd] (node handles true true levels bound)
          let value ←
            if ← isNext [.value] then do
              next
              nodeUnless [.key, .value, .blockEnd] (node handles true true levels bound)
            else pure .nothing
          return (key, value) :: (← blockPairs handles levels bound)
      | .blockEnd => next; return []
      | _ => refuse
  termination_by structural bound => bound

/-- The items between brackets, and the closing one.  All but the first follow a
comma.  A key among them is a mapping of one pair. -/
def flowItems (handles : Handles) (first : Bool) (levels : Nat) : Nat → Parser (List Node)
  | 0 => refuse
  | bound + 1 => do
      if ← isNext [.flowSequenceEnd] then
        next
        return []
      if !first then
        if ← isNext [.flowEntry] then next else refuse
      match ← peek with
      | .key =>
          next
          let key ← nodeUnless [.value, .flowEntry, .flowSequenceEnd]
            (node handles false false (levels - 1) bound)
          let value ←
            if ← isNext [.value] then do
              next
              nodeUnless [.flowEntry, .flowSequenceEnd]
                (node handles false false (levels - 1) bound)
            else pure .nothing
          return .mapping none .map [(key, value)] :: (← flowItems handles false levels bound)
      | .flowSequenceEnd => next; return []
      | _ =>
          let item ← node handles false false levels bound
          return item :: (← flowItems handles false levels bound)
  termination_by structural bound => bound

/-- The pairs between braces, and the closing one.  All but the first follow a
comma.  A node that is no key has nothing as its value. -/
def flowPairs (handles : Handles) (first : Bool) (levels : Nat) : Nat → Parser (List (Node × Node))
  | 0 => refuse
  | bound + 1 => do
      if ← isNext [.flowMappingEnd] then
        next
        return []
      if !first then
        if ← isNext [.flowEntry] then next else refuse
      match ← peek with
      | .key =>
          next
          let key ← nodeUnless [.value, .flowEntry, .flowMappingEnd]
            (node handles false false levels bound)
          let value ←
            if ← isNext [.value] then do
              next
              nodeUnless [.flowEntry, .flowMappingEnd] (node handles false false levels bound)
            else pure .nothing
          return (key, value) :: (← flowPairs handles false levels bound)
      | .flowMappingEnd => next; return []
      | _ =>
          let key ← node handles false false levels bound
          return (key, .nothing) :: (← flowPairs handles false levels bound)
  termination_by structural bound => bound

end

/-- The directives before a document, after those that were read: whether a
version was among them, and the handles.  Neither a version nor a handle is given
twice. -/
def directives : Nat → Bool → Handles → Parser Handles
  | 0, _, _ => refuse
  | bound + 1, versioned, handles => do
      match ← peek with
      | .directive directive =>
          next
          match directive with
          | .version major =>
              if versioned || major ≠ 1 then refuse
              directives bound true handles
          | .tag handle meaning =>
              if (handles.lookup handle).isSome then refuse
              directives bound versioned (handles ++ [(handle, meaning)])
          | .other => directives bound versioned handles
      | _ => return handles ++ defaultHandles

/-- The directives of a document and the mark after them. -/
def prologue (bound : Nat) : Parser Handles := do
  let handles ← directives bound false []
  if ← isNext [.documentStart] then
    next
    return handles
  else refuse

/-- Move past marks at the end of a document. -/
def skipEnds : Nat → Parser Unit
  | 0 => return ()
  | bound + 1 => do
      if ← isNext [.documentEnd] then
        next
        skipEnds bound

/-- Whether the next token cannot begin the contents of a document. -/
def isVoid : Parser Bool := do
  match ← peek with
  | .directive _ | .documentStart | .documentEnd | .streamEnd => return true
  | _ => return false

/-- The number of levels to which nodes can be nested. -/
def maxLevels : Nat := 490

/-- The contents of the first document, if there is one. -/
def contents (bound : Nat) : Parser (Option Node) := do
  match ← peek with
  | .streamEnd => return none
  | .directive _ | .documentStart =>
      let handles ← prologue bound
      if ← isVoid then return some .nothing
      return some (← node handles true false maxLevels bound)
  | _ => return some (← node defaultHandles true false maxLevels bound)

/-- The only document, if there is one. -/
def document (bound : Nat) : Parser (Option Node) := do
  match ← contents bound with
  | none => return none
  | some root =>
      skipEnds bound
      if ← isNext [.streamEnd] then return some root
      let _ ← prologue bound
      throw .reference

end Parser

/-- A document: the node at its root. -/
abbrev Document := Node

/-- The only document that tokens make, if they make one.  No loop takes more
steps than twice the number of tokens. -/
def Document.ofTokens (stream : TokenStream) : Except Fault (Option Document) := do
  let (root, _) ← Parser.document (2 * stream.tokens.length + 4) ⟨stream, []⟩
  return root

end Yaml
end ContractAdmission
