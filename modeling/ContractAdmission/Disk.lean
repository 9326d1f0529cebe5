import ContractAdmission.Path
import ContractAdmission.Text.Decimal
import ContractAdmission.Wasm.Reader

/-!
# What is found at a path

The program asks of the file system only what stands at a path.  `Disk` is any
answer to that question; `FileTree` is a working directory from which the answer
is computed.
-/

namespace ContractAdmission

/-- What stands at a path. -/
inductive Found where
  | file (contents : Bytes)
  | directory
  | absent
  /-- The path cannot be asked for, because a name in it is too long. -/
  | unaskable
  deriving DecidableEq, Repr

/-- What stands at every path. -/
structure Disk where
  find : Path → Found

/-- What stands at the path that a text names. -/
def Disk.look (disk : Disk) (text : String) : Found :=
  match Path.ofText? text with
  | none => .absent
  | some path => disk.find path

/-- The reason for which the contents of a file cannot be had. -/
structure ReadFault where
  code : Int
  explanation : String
  deriving DecidableEq, Repr

/-- The text of a reason. -/
def ReadFault.message (fault : ReadFault) : String :=
  let digits := Text.decimal fault.code.natAbs
  let code := if fault.code < 0 then "-" ++ digits else digits
  "[Errno " ++ code ++ "] " ++ fault.explanation

/-- The longest name of a file, in bytes. -/
def maxNameBytes : Nat := 255

/-- The longest text of a path, in bytes. -/
def maxPathBytes : Nat := 4095

/-- A file or a directory of its own. -/
inductive FileNode where
  | file (contents : Bytes)
  | directory
  deriving DecidableEq, Repr

/-- The files and directories below a working directory, each at a list of
names, the latest first. -/
structure FileTree where
  entries : List (List String × FileNode) := []
  deriving Repr

namespace FileTree

/-- What stands at a list of names.  The working directory itself is a
directory. -/
def node? (tree : FileTree) : List String → Option FileNode
  | [] => some .directory
  | names => (tree.entries.find? fun entry => entry.1 = names).map (·.2)

/-- The tree with a node at a list of names and directories above it. -/
def insert (tree : FileTree) (names : List String) (node : FileNode) : FileTree :=
  let above := (List.range names.length).filterMap fun count =>
    let parent := names.take count
    if (tree.node? parent).isSome then none else some (parent, FileNode.directory)
  ⟨(names, node) :: above ++ tree.entries.filter fun entry => entry.1 ≠ names⟩

/-- The tree without what stands at a list of names and below it. -/
def erase (tree : FileTree) (names : List String) : FileTree :=
  ⟨tree.entries.filter fun entry => ¬ names.isPrefixOf entry.1⟩

/-- What was put at a list of names stands there. -/
theorem node?_insert_self (tree : FileTree) {names : List String} (node : FileNode)
    (h : names ≠ []) : (tree.insert names node).node? names = some node := by
  cases names with
  | nil => exact absurd rfl h
  | cons name rest => simp [insert, node?]

/-- Nothing stands at a list of names from which everything was taken. -/
theorem node?_erase_self (tree : FileTree) {names : List String} (h : names ≠ []) :
    (tree.erase names).node? names = none := by
  cases names with
  | nil => exact absurd rfl h
  | cons name rest =>
      simp only [erase, node?, Option.map_eq_none_iff, List.find?_eq_none, List.mem_filter]
      rintro entry ⟨-, hkept⟩ hfound
      simp_all

/-- A place that names lead to: a number of directories above the working
directory, or a list of names below it. -/
inductive Place where
  | above (count : Nat)
  | below (names : List String)
  deriving DecidableEq, Repr

/-- What stands at a place. -/
def stands (tree : FileTree) : Place → Found
  | .above _ => .directory
  | .below names =>
      match tree.node? names with
      | none => .absent
      | some (.file contents) => .file contents
      | some .directory => .directory

/-- The place that a name leads to, or why it leads nowhere. -/
def enter (tree : FileTree) (place : Place) (name : String) : Except Found Place :=
  match place with
  | .above count =>
      if name = ".." then .ok (.above (count + 1))
      else if maxNameBytes < name.utf8ByteSize then .error .unaskable
      else .error .absent
  | .below names =>
      if tree.node? names ≠ some .directory then .error .absent
      else if name = ".." then
        .ok (if names = [] then .above 1 else .below names.dropLast)
      else if maxNameBytes < name.utf8ByteSize then .error .unaskable
      else .ok (.below (names ++ [name]))

/-- Follow names from a place to what stands at their end. -/
def walk (tree : FileTree) (place : Place) : List String → Found
  | [] => tree.stands place
  | name :: rest =>
      match tree.enter place name with
      | .ok next => tree.walk next rest
      | .error found => found

/-- What stands at a path.  Nothing but the working directory is known to stand
below the root. -/
def find (tree : FileTree) (path : Path) : Found :=
  if maxPathBytes < path.text.utf8ByteSize then .unaskable
  else if path.rooted then tree.walk (.above 0) path.parts
  else tree.walk (.below []) path.parts

/-- The answers of a working directory. -/
def disk (tree : FileTree) : Disk := ⟨tree.find⟩

end FileTree
end ContractAdmission
