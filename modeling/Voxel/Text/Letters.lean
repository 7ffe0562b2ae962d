/-!
Comparison of texts that ignores the case of the letters `a` to `z` and nothing else.
-/
namespace Voxel.Text

/-- The characters of a text with `A` to `Z` made small. -/
def fold (s : String) : List Char := s.toList.map Char.toLower

def sameLetters (a b : String) : Bool := fold a == fold b

theorem sameLetters_iff {a b : String} : sameLetters a b = true ↔ fold a = fold b := by
  simp [sameLetters]

end Voxel.Text
