/-!
# Settings

What a configuration can say: values without a type of their own.  The only
shapes that matter to a configuration are texts and lists, so every other shape
is one.
-/

namespace ContractAdmission

/-- A value that a configuration gives to a key. -/
inductive Setting where
  | text (value : String)
  | list (items : List Setting)
  | other

/-- The text that a setting is, if it is one. -/
def Setting.text? : Setting → Option String
  | .text value => some value
  | _ => none

/-- The keys of a configuration and what they are set to, in order. -/
abbrev Settings := List (String × Setting)

namespace Settings

/-- What a key is set to. -/
def get? (settings : Settings) (key : String) : Option Setting :=
  settings.lookup key

/-- Set a key.  A key that is set already keeps its place. -/
def set (key : String) (value : Setting) : Settings → Settings
  | [] => [(key, value)]
  | (other, old) :: rest =>
      if other = key then (other, value) :: rest else (other, old) :: set key value rest

/-- A key has the value that it was set to last. -/
@[simp] theorem get?_set_self (settings : Settings) (key : String) (value : Setting) :
    get? (set key value settings) key = some value := by
  induction settings with
  | nil => simp [set, get?]
  | cons entry rest ih =>
      obtain ⟨other, old⟩ := entry
      by_cases h : other = key
      · simp [set, get?, h]
      · have hkey : (key == other) = false := by simpa using fun e : key = other => h e.symm
        simpa [set, get?, List.lookup_cons, h, hkey] using ih

/-- Setting a key does not change what another is set to. -/
theorem get?_set_of_ne {key other : String} (settings : Settings) (value : Setting)
    (h : other ≠ key) : get? (set key value settings) other = get? settings other := by
  have hkey : (other == key) = false := by simpa using h
  induction settings with
  | nil => simp [set, get?, List.lookup_cons, hkey]
  | cons entry rest ih =>
      obtain ⟨first, old⟩ := entry
      by_cases hfirst : first = key
      · simp [set, get?, List.lookup_cons, hfirst, hkey]
      · simp only [get?] at ih
        simp [set, get?, List.lookup_cons, hfirst, ih]

/-- The settings that a list of pairs makes, one after the other. -/
def ofPairs (pairs : List (String × Setting)) : Settings :=
  pairs.foldl (fun settings pair => set pair.1 pair.2 settings) []

end Settings
end ContractAdmission
