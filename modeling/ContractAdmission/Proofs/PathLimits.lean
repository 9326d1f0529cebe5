import ContractAdmission.Disk

/-!
# Paths that cannot be asked for

A file system refuses to say what stands at a path when the path is too long as a
whole, or when a name that is too long is looked up in a directory.  This module says
exactly which paths of a working directory these are.

* `FileTree.enter_eq_unaskable_iff` — one step refuses a long name in a directory.
* `FileTree.walk_eq_unaskable_iff` — a walk refuses when one of its steps does, after
  the names before it have led to a directory.
* `FileTree.look_eq_unaskable_iff` — the same for the text of a path.

A long name behind a missing component, behind a file, or in a path with a NUL is never
looked up and does no harm.
-/

namespace ContractAdmission

/-- Where the names of a path are looked up first. -/
def Path.start (path : Path) : FileTree.Place :=
  if path.rooted then .above 0 else .below []

namespace FileTree

/-- A name is refused exactly when it is too long and is looked up in a directory. -/
theorem enter_eq_unaskable_iff {tree : FileTree} {place : Place} {name : String} :
    tree.enter place name = .error .unaskable ↔
      tree.stands place = .directory ∧ name ≠ ".." ∧ maxNameBytes < name.utf8ByteSize := by
  cases place with
  | above count =>
      simp only [enter, stands, true_and]
      by_cases hup : name = ".."
      · simp [hup]
      · by_cases hlong : maxNameBytes < name.utf8ByteSize
        · simp [hup, hlong]
        · simp [hup, hlong]
  | below names =>
      simp only [enter, stands]
      cases hnode : tree.node? names with
      | none => simp
      | some node =>
          cases node with
          | file contents => simp
          | directory =>
              by_cases hup : name = ".."
              · simp [hup]
              · by_cases hlong : maxNameBytes < name.utf8ByteSize
                · simp [hup, hlong]
                · simp [hup, hlong]

/-- A name that leads nowhere does not lead to a directory. -/
theorem enter_error_ne_directory {tree : FileTree} {place : Place} {name : String}
    {found : Found} (h : tree.enter place name = .error found) : found ≠ .directory := by
  rintro rfl
  cases place with
  | above count =>
      simp only [enter] at h
      split at h
      · cases h
      · split at h <;> cases h
  | below names =>
      simp only [enter] at h
      split at h
      · cases h
      · split at h
        · cases h
        · split at h <;> cases h

/-- What stands at a place can be said. -/
theorem stands_ne_unaskable (tree : FileTree) (place : Place) :
    tree.stands place ≠ .unaskable := by
  cases place with
  | above count => simp [stands]
  | below names =>
      simp only [stands]
      cases tree.node? names with
      | none => simp
      | some node => cases node <;> simp

/-- A walk is refused exactly when a name on it is too long and the names before it lead
to a directory. -/
theorem walk_eq_unaskable_iff {tree : FileTree} {place : Place} {names : List String} :
    tree.walk place names = .unaskable ↔
      ∃ before name after, names = before ++ name :: after ∧
        tree.walk place before = .directory ∧ name ≠ ".." ∧
          maxNameBytes < name.utf8ByteSize := by
  induction names generalizing place with
  | nil =>
      simp only [walk]
      constructor
      · intro h
        exact absurd h (stands_ne_unaskable tree place)
      · rintro ⟨before, name, after, hnames, -⟩
        exact absurd hnames (by simp)
  | cons first rest ih =>
      cases henter : tree.enter place first with
      | error found =>
          have hwalk : ∀ later, tree.walk place (first :: later) = found := by
            intro later
            simp [walk, henter]
          rw [hwalk]
          constructor
          · rintro rfl
            obtain ⟨hstands, hname⟩ := enter_eq_unaskable_iff.1 henter
            exact ⟨[], first, rest, rfl, hstands, hname⟩
          · rintro ⟨before, name, after, hnames, hdirectory, hname⟩
            cases before with
            | nil =>
                obtain ⟨rfl, -⟩ := List.cons.inj hnames
                have hrefused := enter_eq_unaskable_iff.2 ⟨hdirectory, hname⟩
                rw [henter] at hrefused
                exact Except.error.inj hrefused
            | cons head before =>
                -- The walk ends at the first name, so it leads to no directory.
                obtain ⟨rfl, -⟩ := List.cons.inj hnames
                rw [hwalk] at hdirectory
                exact absurd hdirectory (enter_error_ne_directory henter)
      | ok next =>
          have hwalk : ∀ later, tree.walk place (first :: later) = tree.walk next later := by
            intro later
            simp [walk, henter]
          rw [hwalk, ih]
          constructor
          · rintro ⟨before, name, after, rfl, hdirectory, hname⟩
            exact ⟨first :: before, name, after, rfl, (hwalk before).trans hdirectory, hname⟩
          · rintro ⟨before, name, after, hnames, hdirectory, hname⟩
            cases before with
            | nil =>
                obtain ⟨rfl, -⟩ := List.cons.inj hnames
                have hrefused := enter_eq_unaskable_iff.2 ⟨hdirectory, hname⟩
                rw [henter] at hrefused
                cases hrefused
            | cons head before =>
                obtain ⟨rfl, rfl⟩ := List.cons.inj hnames
                exact ⟨before, name, after, rfl, (hwalk before) ▸ hdirectory, hname⟩

/-- A path is overlong in a working directory when its text is too long as a whole, or
when the names before one that is too long lead to a directory. -/
def Overlong (tree : FileTree) (path : Path) : Prop :=
  maxPathBytes < path.text.utf8ByteSize ∨
    ∃ before name after, path.parts = before ++ name :: after ∧
      tree.walk path.start before = .directory ∧ name ≠ ".." ∧
        maxNameBytes < name.utf8ByteSize

/-- The text of a path cannot be asked for exactly when it has no NUL and the path is
overlong. -/
theorem look_eq_unaskable_iff {tree : FileTree} {text : String} :
    tree.disk.look text = .unaskable ↔
      ∃ path, Path.ofText? text = some path ∧ tree.Overlong path := by
  have hfind : ∀ path, tree.find path = .unaskable ↔ tree.Overlong path := by
    intro path
    have hwalk : tree.find path = if maxPathBytes < path.text.utf8ByteSize then .unaskable
        else tree.walk path.start path.parts := by
      unfold find Path.start
      split
      · rfl
      · split <;> rfl
    rw [hwalk, Overlong, ← walk_eq_unaskable_iff]
    by_cases hlong : maxPathBytes < path.text.utf8ByteSize
    · simp [hlong]
    · simp [hlong]
  unfold Disk.look
  cases htext : Path.ofText? text with
  | none => simp
  | some path => simpa [disk] using hfind path

end FileTree

/-- A text without a slash is a path of one name. -/
theorem Path.ofText?_of_name {text : String} (hslash : '/' ∉ text.toList)
    (hnul : '\x00' ∉ text.toList) (hempty : text ≠ "") (hdot : text ≠ ".") :
    Path.ofText? text = some ⟨false, [text]⟩ := by
  have hsplit : text.toList.splitOn '/' = [text.toList] := by
    apply List.splitOnP_eq_singleton
    intro c hc
    rw [beq_eq_false_iff_ne]
    rintro rfl
    exact hslash hc
  have hhead : text.toList.head? ≠ some '/' := fun h => hslash (List.mem_of_mem_head? h)
  simp [ofText?, components, hsplit, hnul, hhead, hempty, hdot]

/-- A name that is too long cannot be asked for in any working directory. -/
theorem FileTree.look_of_long_name (tree : FileTree) {text : String}
    (hslash : '/' ∉ text.toList) (hnul : '\x00' ∉ text.toList)
    (hlong : maxNameBytes < text.utf8ByteSize) : tree.disk.look text = .unaskable := by
  have hshort : ∀ short : String, short.utf8ByteSize ≤ 2 → text ≠ short := by
    rintro short hshort rfl
    unfold maxNameBytes at hlong
    omega
  have hpath := Path.ofText?_of_name hslash hnul (hshort "" (by decide)) (hshort "." (by decide))
  exact look_eq_unaskable_iff.2
    ⟨_, hpath, Or.inr ⟨[], text, [], rfl, rfl, hshort ".." (by decide), hlong⟩⟩

end ContractAdmission
