import Terrarium.Proofs.RasterPainting

namespace Terrarium

namespace Rect

theorem isEmpty_iff_not_mem {r : Rect} : r.isEmpty ↔ ∀ x y, (x, y) ∉ r.cells := by
  constructor
  · exact fun h _ _ => not_mem_cells_of_isEmpty h
  · intro h
    have hfirst := h r.x0.toNat r.y0.toNat
    rw [mem_cells] at hfirst
    rw [isEmpty_iff]
    omega

/-- A cell comes before another one, row by row. -/
def Precedes (p q : Nat × Nat) : Prop := p.2 < q.2 ∨ p.2 = q.2 ∧ p.1 < q.1

instance (p q : Nat × Nat) : Decidable (Precedes p q) :=
  inferInstanceAs (Decidable (p.2 < q.2 ∨ p.2 = q.2 ∧ p.1 < q.1))

theorem Precedes.trans {p q r : Nat × Nat} (hpq : Precedes p q) (hqr : Precedes q r) :
    Precedes p r := by
  rw [Precedes] at *
  omega

theorem pairwise_cells (r : Rect) : r.cells.Pairwise Precedes := by
  refine List.pairwise_flatMap.mpr ⟨fun y _ => ?_, ?_⟩
  · refine List.pairwise_map.mpr ((List.pairwise_lt_range' ..).imp ?_)
    exact fun h => .inr ⟨rfl, h⟩
  · refine (List.pairwise_lt_range' ..).imp ?_
    intro y y' hy p hp q hq
    obtain ⟨u, -, rfl⟩ := List.mem_map.mp hp
    obtain ⟨v, -, rfl⟩ := List.mem_map.mp hq
    exact .inl hy

end Rect

namespace Brush

variable {b : Brush} {grid : UInt32} {x y : Nat}

/-- Whether a cell, on a grid or off it, is in the square of a brush. -/
def Covers (b : Brush) (x y : Int) : Prop :=
  (b.left ≤ x ∧ x < b.left + b.size.toNat) ∧ b.top ≤ y ∧ y < b.top + b.size.toNat

instance (b : Brush) (x y : Int) : Decidable (b.Covers x y) :=
  inferInstanceAs (Decidable (_ ∧ _))

/-- Whether a cell is on a grid and in the square of a brush. -/
def Touches (b : Brush) (grid : UInt32) (x y : Nat) : Prop :=
  (x < grid.toNat ∧ y < grid.toNat) ∧ b.Covers x y

instance (b : Brush) (grid : UInt32) (x y : Nat) : Decidable (b.Touches grid x y) :=
  inferInstanceAs (Decidable (_ ∧ _))

/-- A brush without cells, without a place, or with the wrong number of densities. -/
def Malformed (b : Brush) : Prop :=
  b.size = 0 ∨ ¬(b.xc.isFinite ∧ b.yc.isFinite) ∨ b.density.size ≠ b.size.toNat * b.size.toNat

theorem mem_onGrid : (x, y) ∈ (b.onGrid grid).cells ↔ b.Touches grid x y := by
  constructor
  · exact bounds_of_mem_onGrid
  · rintro ⟨hcell, hx, hy⟩
    rw [Rect.mem_cells, onGrid]
    dsimp only
    have hx0 := toNat_clip grid b.left
    have hy0 := toNat_clip grid b.top
    have hx1 := toNat_clip grid (b.left + b.size.toNat)
    have hy1 := toNat_clip grid (b.top + b.size.toNat)
    omega

theorem validate_cases (b : Brush) :
    (b.Malformed ∧ ∃ text, b.validate = .error (.invalidArgument text)) ∨
      (¬b.Malformed ∧ b.validate = .ok ()) := by
  have hplaced : !(b.xc.isFinite && b.yc.isFinite) ↔ ¬(b.xc.isFinite ∧ b.yc.isFinite) := by
    rw [Bool.not_eq_true', ← Bool.not_eq_true, Bool.and_eq_true]
  rw [validate]
  split
  · rename_i hsize
    exact .inl ⟨.inl hsize, _, rfl⟩
  · rename_i hsize
    split
    · rename_i hcentre
      exact .inl ⟨.inr (.inl (hplaced.mp hcentre)), _, rfl⟩
    · rename_i hcentre
      split
      · rename_i hcount
        exact .inl ⟨.inr (.inr hcount), _, rfl⟩
      · rename_i hcount
        refine .inr ⟨?_, rfl⟩
        rintro (h | h | h)
        · exact hsize h
        · exact hcentre (hplaced.mpr h)
        · exact hcount h

theorem footprint_cases (b : Brush) (grid : UInt32) :
    (b.Malformed ∧ ∃ text, b.footprint grid = .error (.invalidArgument text)) ∨
      (¬b.Malformed ∧ (∀ x y, ¬b.Touches grid x y) ∧ b.footprint grid = .error .outOfBounds) ∨
      (¬b.Malformed ∧ (∃ x y, b.Touches grid x y) ∧ b.footprint grid = .ok (b.onGrid grid)) := by
  rw [footprint]
  rcases b.validate_cases with ⟨hmalformed, text, hvalid⟩ | ⟨hmalformed, hvalid⟩
  · rw [hvalid]
    exact .inl ⟨hmalformed, text, rfl⟩
  · rw [hvalid]
    dsimp only
    split
    · rename_i hempty
      refine .inr (.inl ⟨hmalformed, fun x y htouch => ?_, rfl⟩)
      exact Rect.isEmpty_iff_not_mem.mp hempty x y (mem_onGrid.mpr htouch)
    · rename_i hempty
      rw [Rect.isEmpty_iff_not_mem] at hempty
      push Not at hempty
      obtain ⟨x, y, hmem⟩ := hempty
      exact .inr (.inr ⟨hmalformed, ⟨x, y, mem_onGrid.mp hmem⟩, rfl⟩)

theorem clipped_footprint {r : Rect} (h : b.footprint grid = .ok r) : r.clipped grid = r := by
  rcases b.footprint_cases grid with ⟨-, text, hfoot⟩ | ⟨-, -, hfoot⟩ | ⟨-, ⟨x, y, htouch⟩, hfoot⟩
  · exact nomatch hfoot.symm.trans h
  · exact nomatch hfoot.symm.trans h
  · obtain rfl := Except.ok.inj (hfoot.symm.trans h)
    have hx0 := toNat_clip grid b.left
    have hy0 := toNat_clip grid b.top
    have hx1 := toNat_clip grid (b.left + b.size.toNat)
    have hy1 := toNat_clip grid (b.top + b.size.toNat)
    obtain ⟨hcell, hx, hy⟩ := htouch
    simp only [Rect.clipped, onGrid, Rect.mk.injEq, ← UInt32.toNat_inj, Rect.toNat_min,
      Rect.toNat_max]
    omega

end Brush

end Terrarium
