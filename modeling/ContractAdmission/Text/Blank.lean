/-!
# Blank characters

The twenty-nine characters that count as white space around a name, and the
removal of such characters from both ends of a text.  The class is the Unicode
property `White_Space` together with the four separator controls U+001C to
U+001F; around a numeral only the property itself counts.
-/

namespace ContractAdmission
namespace Text

/-- Whether a character is white space: the controls U+0009 to U+000D and
U+001C to U+001F, the space, U+0085 and U+00A0, and the space separators of the
later planes. -/
def isBlank (c : Char) : Bool :=
  let n := c.toNat
  (0x09 ≤ n && n ≤ 0x0d) || (0x1c ≤ n && n ≤ 0x20) || n == 0x85 || n == 0xa0 ||
    n == 0x1680 || (0x2000 ≤ n && n ≤ 0x200a) || n == 0x2028 || n == 0x2029 ||
    n == 0x202f || n == 0x205f || n == 0x3000

/-- Whether a character has the property `White_Space`: a blank one that is none
of the four separator controls. -/
def isWhiteSpace (c : Char) : Bool :=
  isBlank c && !(0x1c ≤ c.toNat && c.toNat ≤ 0x1f)

/-- The characters of a text without those of a class at its end. -/
def trimRight (p : Char → Bool) : List Char → List Char
  | [] => []
  | c :: rest =>
      match trimRight p rest with
      | [] => if p c then [] else [c]
      | kept => c :: kept

/-- The characters of a text without those of a class at either end. -/
def trim (p : Char → Bool) (cs : List Char) : List Char :=
  trimRight p (cs.dropWhile p)

/-- The characters of a text without the blank ones at either end. -/
def stripChars (cs : List Char) : List Char :=
  trim isBlank cs

/-- A text without the blank characters at either end. -/
def strip (s : String) : String :=
  String.ofList (stripChars s.toList)

@[simp] theorem toList_strip (s : String) :
    (strip s).toList = stripChars s.toList := by
  simp [strip]

/-- Every blank character of ASCII is one of the class. -/
theorem isBlank_of_isWhitespace {c : Char} (h : c.isWhitespace = true) :
    isBlank c = true := by
  simp only [Char.isWhitespace, Bool.or_eq_true, decide_eq_true_eq] at h
  rcases h with ((rfl | rfl) | rfl) | rfl <;> decide

/-- There is nothing to trim from the empty text. -/
@[simp] theorem trimRight_nil (p : Char → Bool) : trimRight p [] = [] := rfl

/-- Trimming the end keeps an initial part of the text. -/
theorem trimRight_isPrefix (p : Char → Bool) (cs : List Char) : trimRight p cs <+: cs := by
  induction cs with
  | nil => exact List.prefix_refl _
  | cons c rest ih =>
      unfold trimRight
      split
      · split
        · exact List.nil_prefix
        · exact ⟨rest, rfl⟩
      · rename_i kept _
        simpa [List.cons_prefix_cons] using ih

end Text
end ContractAdmission
