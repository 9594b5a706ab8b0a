import Terrarium.Plane.Rect

namespace Terrarium.Rect

theorem toNat_min (a b : UInt32) : (min a b).toNat = min a.toNat b.toNat := by
  change (if a ≤ b then a else b).toNat = _
  split
  · rename_i h
    exact (Nat.min_eq_left (UInt32.le_iff_toNat_le.mp h)).symm
  · rename_i h
    rw [UInt32.le_iff_toNat_le] at h
    exact (Nat.min_eq_right (Nat.le_of_not_le h)).symm

theorem toNat_max (a b : UInt32) : (max a b).toNat = max a.toNat b.toNat := by
  change (if a ≤ b then b else a).toNat = _
  split
  · rename_i h
    exact (Nat.max_eq_right (UInt32.le_iff_toNat_le.mp h)).symm
  · rename_i h
    rw [UInt32.le_iff_toNat_le] at h
    exact (Nat.max_eq_left (Nat.le_of_not_le h)).symm

variable {a b r : Rect} {size : UInt32} {x y : Nat}

theorem isEmpty_iff : r.isEmpty ↔ r.x1.toNat ≤ r.x0.toNat ∨ r.y1.toNat ≤ r.y0.toNat := by
  simp [isEmpty, UInt32.le_iff_toNat_le]

theorem toNat_width (r : Rect) : r.width.toNat = r.x1.toNat - r.x0.toNat := by
  rw [width]
  split
  · rename_i h
    exact UInt32.toNat_sub_of_le _ _ (UInt32.le_of_lt h)
  · rename_i h
    rw [UInt32.lt_iff_toNat_lt] at h
    exact (Nat.sub_eq_zero_of_le (Nat.le_of_not_lt h)).symm

theorem toNat_height (r : Rect) : r.height.toNat = r.y1.toNat - r.y0.toNat :=
  toNat_width ⟨r.y0, r.x0, r.y1, r.x1⟩

theorem mem_cells :
    (x, y) ∈ r.cells ↔ (r.x0.toNat ≤ x ∧ x < r.x1.toNat) ∧ r.y0.toNat ≤ y ∧ y < r.y1.toNat := by
  simp only [cells, List.mem_flatMap, List.mem_map, List.mem_range'_1, toNat_width, toNat_height,
    Prod.mk.injEq]
  constructor
  · rintro ⟨v, hv, u, hu, rfl, rfl⟩
    omega
  · rintro ⟨hx, hy⟩
    exact ⟨y, by omega, x, by omega, rfl, rfl⟩

theorem mem_cells_iff_contains {x y : UInt32} : (x.toNat, y.toNat) ∈ r.cells ↔ r.contains x y := by
  simp [mem_cells, contains, UInt32.le_iff_toNat_le, UInt32.lt_iff_toNat_lt, and_assoc]

theorem mem_cells_cell {i j : UInt32} (hi : i < size) (hj : j < size) :
    (x, y) ∈ (cell i j).cells ↔ x = i.toNat ∧ y = j.toNat := by
  have hsucc {k : UInt32} (hk : k < size) : (k + 1).toNat = k.toNat + 1 := by
    have hsize := size.toNat_lt
    rw [UInt32.lt_iff_toNat_lt] at hk
    rw [UInt32.toNat_add]
    exact Nat.mod_eq_of_lt (by change k.toNat + 1 < _; omega)
  simp only [cell, mem_cells, hsucc hi, hsucc hj]
  omega

theorem not_mem_cells_of_isEmpty (h : r.isEmpty) : (x, y) ∉ r.cells := by
  rw [isEmpty_iff] at h
  rw [mem_cells]
  omega

theorem mem_cells_union_left (h : (x, y) ∈ a.cells) : (x, y) ∈ (a.union b).cells := by
  rw [union]
  split
  · rename_i hempty
    exact absurd h (not_mem_cells_of_isEmpty hempty)
  · split
    · exact h
    · simp only [mem_cells, toNat_min, toNat_max] at h ⊢
      omega

theorem mem_cells_union_right (h : (x, y) ∈ b.cells) : (x, y) ∈ (a.union b).cells := by
  rw [union]
  split
  · exact h
  · split
    · rename_i hempty
      exact absurd h (not_mem_cells_of_isEmpty hempty)
    · simp only [mem_cells, toNat_min, toNat_max] at h ⊢
      omega

theorem mem_cells_clipped :
    (x, y) ∈ (r.clipped size).cells ↔ (x, y) ∈ r.cells ∧ x < size.toNat ∧ y < size.toNat := by
  simp only [clipped, mem_cells, toNat_min, toNat_max]
  omega

/-- Bounds that are in order and on a grid. -/
structure Within (size : UInt32) (r : Rect) : Prop where
  columns : r.x0 ≤ r.x1 ∧ r.x1 ≤ size
  rows : r.y0 ≤ r.y1 ∧ r.y1 ≤ size

theorem within_empty (size : UInt32) : empty.Within size :=
  ⟨⟨UInt32.le_refl 0, UInt32.zero_le⟩, ⟨UInt32.le_refl 0, UInt32.zero_le⟩⟩

theorem within_clipped (r : Rect) (size : UInt32) : (r.clipped size).Within size := by
  constructor <;>
    simp only [clipped, UInt32.le_iff_toNat_le, toNat_min, toNat_max] <;> omega

theorem Within.union (ha : a.Within size) (hb : b.Within size) : (a.union b).Within size := by
  rw [Rect.union]
  split
  · exact hb
  · split
    · exact ha
    · obtain ⟨hx, hy⟩ := ha
      obtain ⟨hx', hy'⟩ := hb
      simp only [UInt32.le_iff_toNat_le] at hx hy hx' hy'
      constructor <;> simp only [UInt32.le_iff_toNat_le, toNat_min, toNat_max] <;> omega

end Terrarium.Rect
