import Terrarium.Proofs.BrushCells
import Terrarium.Proofs.SingleHalves

namespace Terrarium.Brush

open Single (Halves)

/-- How much too low the first column or row is for a centre of so many halves: by one if it is to
be rounded and is below zero. -/
def drift (halves : Int) (size : UInt32) : Int :=
  if (halves - size.toNat) % 2 = 1 ∧ halves < size.toNat then 1 else 0

variable {c : Float32} {a : Int} {size : UInt32}

theorem corner_add_drift (hc : Halves c a) (ha : a.natAbs < 2 ^ 21) (hsize : size.toNat < 2 ^ 20) :
    corner c size + drift a size = (a - size.toNat + 1) / 2 := by
  have hradius := (Single.halves_ofUInt32 size (by omega)).div_two (by omega)
  have hcorner := (hc.sub hradius (by omega)).round (by omega)
  rw [corner, hcorner, drift]
  split <;> split <;> omega

theorem covers_axis {i : Int} (hc : Halves c (2 * i)) (hi : i.natAbs < 2 ^ 20)
    (hsize : size.toNat < 2 ^ 20) (hodd : size.toNat % 2 = 1) (x : Int) :
    corner c size ≤ x ∧ x < corner c size + size.toNat ↔
      2 * (x + drift (2 * i) size - i).natAbs ≤ size.toNat - 1 := by
  have hcorner := corner_add_drift hc (by omega) hsize
  omega

/-- A brush moves with its centre, and one of odd size covers as many cells on each side of it, but
for the drift of a brush that begins off the grid. -/
theorem corner_moves (size : UInt32) (hsize : size.toNat < 2 ^ 20) :
    (∀ c c' a k, Halves c a → Halves c' (a + 2 * k) → a.natAbs < 2 ^ 21 →
      (a + 2 * k).natAbs < 2 ^ 21 →
      (corner c' size = corner c size + k ↔ drift (a + 2 * k) size = drift a size) ∧
        corner c' size + drift (a + 2 * k) size = corner c size + drift a size + k) ∧
    ∀ (b : Brush) (i j : Int), b.size = size → size.toNat % 2 = 1 → Halves b.xc (2 * i) →
      Halves b.yc (2 * j) → i.natAbs < 2 ^ 20 → j.natAbs < 2 ^ 20 → ∀ grid x y,
      (x, y) ∈ (b.onGrid grid).cells ↔ (x < grid.toNat ∧ y < grid.toNat) ∧
        2 * (x + drift (2 * i) size - i).natAbs ≤ size.toNat - 1 ∧
        2 * (y + drift (2 * j) size - j).natAbs ≤ size.toNat - 1 := by
  constructor
  · intro c c' a k hc hc' ha ha'
    have hcorner := corner_add_drift hc ha hsize
    have hcorner' := corner_add_drift hc' ha' hsize
    omega
  · rintro b i j rfl hodd hx hy hi hj grid x y
    rw [mem_onGrid, Touches, Covers, left, top, covers_axis hx hi hsize hodd,
      covers_axis hy hj hsize hodd]

/-- A brush of three by three cells, which lies evenly around the fourth cell, begins one cell too
low when it is moved to the second: of the square around that one, it misses the last column and
row. -/
theorem corner_moves_to_edge :
    (3 : UInt32).toNat < 2 ^ 20 ∧ drift 6 3 = 0 ∧ drift 2 3 = 1 ∧ corner 3 3 = 2 ∧
      corner 1 3 + drift 2 3 = corner 3 3 + drift 6 3 + -2 ∧
      ∀ x y, (x, y) ∈ ((Brush.uniform 1 1 3 1).onGrid 3).cells ↔ (x < 3 ∧ y < 3) ∧
        2 * ((x : Int) + 1 - 1).natAbs ≤ 2 ∧ 2 * ((y : Int) + 1 - 1).natAbs ≤ 2 := by
  obtain ⟨hmoves, hcells⟩ := corner_moves 3 (by decide)
  refine ⟨by decide, by decide, by decide, by decide +kernel, ?_, ?_⟩
  · exact (hmoves 3 1 6 (-2) (by decide +kernel) (by decide +kernel) (by decide) (by decide)).2
  · exact hcells (Brush.uniform 1 1 3 1) 1 1 rfl (by decide) (by decide +kernel)
      (by decide +kernel) (by decide) (by decide) 3

end Terrarium.Brush
