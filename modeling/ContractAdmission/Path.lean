/-!
# Paths

A path as it is given is a text.  Empty components and `.` say nothing and are
dropped before anything is looked up; `..` is left to whoever looks.  A text with
a NUL names nothing.
-/

namespace ContractAdmission

/-- The components of a path that say something, and whether they start from the
root. -/
structure Path where
  rooted : Bool
  parts : List String
  deriving DecidableEq, Repr

namespace Path

/-- The components of a text between slashes. -/
def components (text : String) : List String :=
  (text.toList.splitOn '/').map String.ofList

/-- The path that a text names. -/
def ofText? (text : String) : Option Path :=
  if '\x00' ∈ text.toList then none
  else some ⟨text.toList.head? = some '/',
    (components text).filter fun part => part ≠ "" ∧ part ≠ "."⟩

/-- The text of a path without the components that say nothing. -/
def text (path : Path) : String :=
  let joined := "/".intercalate path.parts
  if path.rooted then "/" ++ joined
  else if path.parts = [] then "."
  else joined

/-- Whether the last component of a text says nothing, so that the text can only
name a directory. -/
def namesDirectory (text : String) : Bool :=
  match (components text).getLast? with
  | none => true
  | some last => last = "" || last = "."

end Path
end ContractAdmission
