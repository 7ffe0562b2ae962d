import Voxel.Error
/-!
The cells of a section layer. A cell's number counts `x` first, then `z`, then `y`.
-/
namespace Voxel

abbrev volume : Nat := 4096

abbrev Cell := Fin volume

/-- Coordinates, which may lie outside of the section. -/
structure Position where
  x : Nat
  y : Nat
  z : Nat
  deriving DecidableEq, Inhabited, Repr

namespace Position

def isInside (p : Position) : Bool := p.x < 16 && p.y < 16 && p.z < 16

def cell (p : Position) : Except Failure Cell :=
  if h : p.x < 16 ∧ p.y < 16 ∧ p.z < 16 then
    .ok ⟨p.y * 256 + p.z * 16 + p.x, by simp only [volume]; omega⟩
  else .error (.outside p.x p.y p.z)

theorem cell_error {p : Position} {f : Failure} (outside : p.cell = .error f) :
    f = .outside p.x p.y p.z := by
  unfold cell at outside
  split at outside
  · cases outside
  · exact (Except.error.inj outside).symm

end Position

namespace Cell

def position (c : Cell) : Position := ⟨c.val % 16, c.val / 256, c.val / 16 % 16⟩

def all : List Cell := List.ofFn id

theorem cell_position (c : Cell) : (position c).cell = .ok c := by
  have h : c.val < 4096 := c.isLt
  have inside : c.val % 16 < 16 ∧ c.val / 256 < 16 ∧ c.val / 16 % 16 < 16 := by omega
  unfold Position.cell position
  split
  · refine congrArg Except.ok (Fin.ext ?_)
    show c.val / 256 * 256 + c.val / 16 % 16 * 16 + c.val % 16 = c.val
    omega
  · rename_i outside
    exact absurd inside outside

theorem eq_position {p : Position} {c : Cell} (inside : p.cell = .ok c) : p = position c := by
  obtain ⟨x, y, z⟩ := p
  unfold Position.cell at inside
  split at inside
  · rename_i bounds
    obtain ⟨hx, hy, hz⟩ : x < 16 ∧ y < 16 ∧ z < 16 := bounds
    obtain rfl := Except.ok.inj inside
    simp only [position, Position.mk.injEq]
    omega
  · cases inside

end Cell
end Voxel
