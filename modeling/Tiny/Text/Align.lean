/-!
# Columns

Texts are padded with spaces up to a width that counts characters.  A text that is already as
wide stays as it is.
-/

namespace Tiny.Text

/-- A text of `n` spaces. -/
def spaces (n : Nat) : String :=
  String.ofList (List.replicate n ' ')

/-- Spaces in front, so that the text ends at column `width`. -/
def alignRight (width : Nat) (text : String) : String :=
  spaces (width - text.length) ++ text

/-- Spaces behind, so that what follows starts after column `width`. -/
def alignLeft (width : Nat) (text : String) : String :=
  text ++ spaces (width - text.length)

theorem alignRight_eq (width : Nat) (text : String) :
    alignRight width text = String.ofList (text.toList.leftpad width ' ') := by
  rw [alignRight, spaces, List.leftpad, String.length_toList, String.ofList_append,
    String.ofList_toList]

theorem alignLeft_eq (width : Nat) (text : String) :
    alignLeft width text = String.ofList (text.toList.rightpad width ' ') := by
  rw [alignLeft, spaces, List.rightpad, String.length_toList, String.ofList_append,
    String.ofList_toList]

end Tiny.Text
