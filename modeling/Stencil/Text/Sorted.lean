import Stencil.Text.Quoted

/-!
# Sorted texts

Names are listed in alphabetical order, that is by code points.
-/

namespace Stencil.Text

/-- Texts in alphabetical order. -/
def sorted (l : List String) : List String :=
  l.mergeSort fun a b => !(b < a)

/-- The printed form of a list of texts in alphabetical order. -/
def sortedList (l : List String) : String :=
  quotedList (sorted l)

/-- Sorting rearranges. -/
theorem sorted_perm (l : List String) : (sorted l).Perm l :=
  List.mergeSort_perm l _

/-- Sorting keeps the texts. -/
@[simp]
theorem mem_sorted {s : String} {l : List String} : s ∈ sorted l ↔ s ∈ l :=
  (sorted_perm l).mem_iff

end Stencil.Text
