import ContractAdmission.Setting
import ContractAdmission.Yaml.Construction

/-!
# The settings that a document makes

A document whose root is a mapping sets its keys.  A document that counts as
nothing sets none: an empty one, one with an empty collection, or one with a
scalar such as zero.  Any other document makes no settings, and neither does a
mapping with a key that is not text.

Settings are texts of characters.  A text of codes with half of a pair in it is shown as
one.  In a list, whose texts are granted capabilities, it names none: no module can ask for
it.
-/

namespace ContractAdmission
namespace Yaml

/-- Why bytes make no settings. -/
inductive DocumentError where
  | fault (fault : Fault)
  /-- The document is no mapping of texts. -/
  | notSettings
  deriving DecidableEq, Repr

namespace CodeText

/-- A text of codes as one of characters, in which a replacement stands for each half of a
pair. -/
def shown : CodeText → String
  | .whole text => text
  | .halved codes _ =>
      String.ofList (codes.map fun code =>
        if code.isValidChar then Char.ofNat code else '\ufffd')

/-- The capability that a text names.  With half of a pair in it, it names none, as the empty
text does. -/
def capability : CodeText → String
  | .whole text => text
  | .halved _ _ => ""

end CodeText

namespace Construction

/-- The text that a node is, if it is one. -/
def text? (state : Construction) (id : Nat) : Option CodeText :=
  match state.value? id with
  | some (.scalar (.text value)) => some value
  | _ => none

/-- The setting that a member of a list is.  Lists in lists are of no use. -/
def itemSetting (state : Construction) (id : Nat) : Setting :=
  match state.text? id with
  | some value => .text value.capability
  | none => .other

/-- The members of a set: the keys of its pairs, each value once. -/
def members (state : Construction) (pairs : List (Nat × Nat)) : List Nat :=
  pairs.foldl (fun found pair =>
    if found.any fun id => state.value? id = state.value? pair.1 then found
    else found ++ [pair.1]) []

/-- The setting that a node is. -/
def setting (state : Construction) (id : Nat) : Setting :=
  match state.value? id with
  | some (.list items) => .list (items.map state.itemSetting)
  | some (.set pairs) => .list ((state.members pairs).map state.itemSetting)
  | some (.pairList count) => .list (List.replicate count .other)
  | _ =>
      match state.text? id with
      | some value => .text value.shown
      | none => .other

/-- The settings of a mapping, if its keys are texts. -/
def settings? (state : Construction) (pairs : List (Nat × Nat)) : Option Settings :=
  (pairs.mapM fun pair =>
    (state.text? pair.1).map fun key => (key.shown, state.setting pair.2)).map Settings.ofPairs

end Construction

namespace Value

/-- Whether a value counts as nothing. -/
def isNothing : Value → Bool
  | .scalar value => value.isNothing
  | .list items => items.isEmpty
  | .mapping pairs | .set pairs => pairs.isEmpty
  | .pairList count => count = 0

end Value

namespace Document

/-- The settings that the value of the root of a document makes. -/
def rootSettings (state : Construction) : Except DocumentError Settings :=
  match state.value? Graph.root with
  | some value =>
      if value.isNothing then .ok []
      else
        match value with
        | .mapping pairs =>
            match state.settings? pairs with
            | some settings => .ok settings
            | none => .error .notSettings
        | _ => .error .notSettings
  | none => .error .notSettings

/-- The settings that a document makes.  No document at all makes none. -/
def settings (document : Option Document) : Except DocumentError Settings :=
  match document with
  | none => .ok []
  | some root =>
      match Construction.ofNode root with
      | .error fault => .error (.fault fault)
      | .ok state => rootSettings state

/-- The settings that the bytes of a document make. -/
def settingsOfBytes (bytes : Bytes) : Except DocumentError Settings :=
  match ofTokens (TokenStream.ofSource (Source.ofBytes bytes)) with
  | .error fault => .error (.fault fault)
  | .ok document => settings document

end Document
end Yaml
end ContractAdmission
