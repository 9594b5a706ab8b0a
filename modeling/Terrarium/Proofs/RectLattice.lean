import Mathlib.Data.Set.Card
import Terrarium.HeightMap
import Terrarium.Proofs.BrushCells

namespace Terrarium

namespace Rect

attribute [ext] Rect

def cellSet (r : Rect) : Set (UInt32 × UInt32) := {c | r.contains c.1 c.2}

variable {a b r u v : Rect} {size : UInt32} {x y : Nat}

theorem mem_cellSet {p : UInt32 × UInt32} :
    p ∈ r.cellSet ↔ (p.1.toNat, p.2.toNat) ∈ r.cells := mem_cells_iff_contains.symm

theorem lt_of_mem_cells (h : (x, y) ∈ r.cells) : x < UInt32.size ∧ y < UInt32.size := by
  have hx := r.x1.toNat_lt
  have hy := r.y1.toNat_lt
  rw [mem_cells] at h
  change x < 2 ^ 32 ∧ y < 2 ^ 32
  omega

theorem injective_toNat : Function.Injective (Prod.map UInt32.toNat UInt32.toNat) :=
  Function.Injective.prodMap (fun _ _ => UInt32.toNat_inj.mp) fun _ _ => UInt32.toNat_inj.mp

theorem image_cellSet (r : Rect) :
    Prod.map UInt32.toNat UInt32.toNat '' r.cellSet = {p | p ∈ r.cells} := by
  ext ⟨x, y⟩
  constructor
  · rintro ⟨p, hp, heq⟩
    rw [← heq]
    exact mem_cellSet.mp hp
  · intro h
    obtain ⟨hx, hy⟩ := lt_of_mem_cells h
    refine ⟨(UInt32.ofNat x, UInt32.ofNat y), ?_, ?_⟩
    · rw [mem_cellSet, UInt32.toNat_ofNat_of_lt' hx, UInt32.toNat_ofNat_of_lt' hy]
      exact h
    · rw [Prod.map_apply, UInt32.toNat_ofNat_of_lt' hx, UInt32.toNat_ofNat_of_lt' hy]

theorem cellSet_subset : a.cellSet ⊆ b.cellSet ↔ ∀ x y, (x, y) ∈ a.cells → (x, y) ∈ b.cells := by
  rw [← Set.image_subset_image_iff injective_toNat, image_cellSet, image_cellSet]
  exact Prod.forall

theorem subset_iff_bounds (h : a.isEmpty = false) : a.cellSet ⊆ b.cellSet ↔
    (b.x0.toNat ≤ a.x0.toNat ∧ a.x1.toNat ≤ b.x1.toNat) ∧
      b.y0.toNat ≤ a.y0.toNat ∧ a.y1.toNat ≤ b.y1.toNat := by
  have hcells : ¬(a.x1.toNat ≤ a.x0.toNat ∨ a.y1.toNat ≤ a.y0.toNat) := by
    rw [← isEmpty_iff, h]
    exact Bool.false_ne_true
  simp only [cellSet_subset, mem_cells]
  constructor
  · intro hsub
    have hfirst := hsub a.x0.toNat a.y0.toNat
    have hlast := hsub (a.x1.toNat - 1) (a.y1.toNat - 1)
    omega
  · intro hbounds x y hcell
    omega

theorem cellSet_eq_empty : r.cellSet = ∅ ↔ r.isEmpty := by
  rw [← Set.image_eq_empty (f := Prod.map UInt32.toNat UInt32.toNat), image_cellSet,
    isEmpty_iff_not_mem, Set.eq_empty_iff_forall_notMem]
  exact Prod.forall

theorem subset_union_left (a b : Rect) : a.cellSet ⊆ (a.union b).cellSet :=
  cellSet_subset.mpr fun _ _ => mem_cells_union_left

theorem subset_union_right (a b : Rect) : b.cellSet ⊆ (a.union b).cellSet :=
  cellSet_subset.mpr fun _ _ => mem_cells_union_right

theorem union_subset (ha : a.cellSet ⊆ r.cellSet) (hb : b.cellSet ⊆ r.cellSet) :
    (a.union b).cellSet ⊆ r.cellSet := by
  rw [union]
  split
  · exact hb
  · rename_i hcells
    split
    · exact ha
    · rename_i hcells'
      rw [subset_iff_bounds (Bool.eq_false_iff.mpr hcells)] at ha
      rw [subset_iff_bounds (Bool.eq_false_iff.mpr hcells')] at hb
      rw [cellSet_subset]
      intro x y h
      simp only [mem_cells, toNat_min, toNat_max] at h ⊢
      omega

theorem union_subset_iff :
    (a.union b).cellSet ⊆ r.cellSet ↔ a.cellSet ⊆ r.cellSet ∧ b.cellSet ⊆ r.cellSet :=
  ⟨fun h => ⟨(subset_union_left a b).trans h, (subset_union_right a b).trans h⟩,
    fun h => union_subset h.1 h.2⟩

theorem cellSet_eq_of_subset_iff (h : ∀ r : Rect, u.cellSet ⊆ r.cellSet ↔ v.cellSet ⊆ r.cellSet) :
    u.cellSet = v.cellSet := ((h v).mpr subset_rfl).antisymm ((h u).mp subset_rfl)

theorem cellSet_union_comm (a b : Rect) : (a.union b).cellSet = (b.union a).cellSet :=
  cellSet_eq_of_subset_iff fun r => by simp only [union_subset_iff, and_comm]

theorem cellSet_union_assoc (a b c : Rect) :
    ((a.union b).union c).cellSet = (a.union (b.union c)).cellSet :=
  cellSet_eq_of_subset_iff fun r => by simp only [union_subset_iff, and_assoc]

theorem cellSet_union_self (a : Rect) : (a.union a).cellSet = a.cellSet :=
  cellSet_eq_of_subset_iff fun r => by rw [union_subset_iff, and_self]

theorem eq_of_toNat (hx0 : a.x0.toNat = b.x0.toNat) (hy0 : a.y0.toNat = b.y0.toNat)
    (hx1 : a.x1.toNat = b.x1.toNat) (hy1 : a.y1.toNat = b.y1.toNat) : a = b :=
  Rect.ext (UInt32.toNat_inj.mp hx0) (UInt32.toNat_inj.mp hy0) (UInt32.toNat_inj.mp hx1)
    (UInt32.toNat_inj.mp hy1)

theorem union_comm (h : a.isEmpty = false ∨ b.isEmpty = false) : a.union b = b.union a := by
  cases ha : a.isEmpty <;> cases hb : b.isEmpty <;> rw [union, union, ha, hb]
  · apply eq_of_toNat <;> simp only [Bool.false_eq_true, if_false, toNat_min, toNat_max] <;> omega
  · rfl
  · rfl
  · rw [ha, hb] at h
    cases h <;> contradiction

theorem cellSet_clipped (r : Rect) (size : UInt32) :
    (r.clipped size).cellSet = {p ∈ r.cellSet | p.1 < size ∧ p.2 < size} := by
  ext p
  simp only [mem_cellSet, mem_cells_clipped, Set.mem_ofPred_eq, UInt32.lt_iff_toNat_lt]

theorem Within.clipped_eq (h : r.Within size) : r.clipped size = r := by
  obtain ⟨hx, hy⟩ := h
  simp only [UInt32.le_iff_toNat_le] at hx hy
  apply eq_of_toNat <;> simp only [clipped, toNat_min, toNat_max] <;> omega

theorem length_cells (r : Rect) : r.cells.length = r.width.toNat * r.height.toNat := by
  simp [cells, List.length_flatMap, Nat.mul_comm]

theorem encard_cellSet (r : Rect) :
    r.cellSet.encard = (r.width.toNat * r.height.toNat : Nat) := by
  have hfinset : {p | p ∈ r.cells} = (r.cells.toFinset : Set (Nat × Nat)) := by
    ext p
    rw [Finset.mem_coe, List.mem_toFinset]
    rfl
  rw [← injective_toNat.encard_image, image_cellSet, hfinset, Set.encard_coe_eq_coe_finsetCard,
    List.toFinset_card_of_nodup r.nodup_cells, length_cells]

end Rect

namespace HeightMap

/-- The rectangle of changes lies in another one just if it did before, and if what was announced,
cut to the ground, does too. -/
theorem dirty_announced_subset_iff (m : HeightMap) (rs : List Rect) (r : Rect) :
    (rs.foldl announce m).dirty.cellSet ⊆ r.cellSet ↔
      m.dirty.cellSet ⊆ r.cellSet ∧ ∀ s ∈ rs, (s.clipped m.size).cellSet ⊆ r.cellSet := by
  induction rs generalizing m with
  | nil => simp
  | cons s rs ih =>
      have hsize : (m.announce s).size = m.size := rfl
      have hdirty : (m.announce s).dirty = m.dirty.union (s.clipped m.size) := rfl
      rw [List.foldl_cons, ih, hsize, hdirty, Rect.union_subset_iff, List.forall_mem_cons,
        and_assoc]

theorem cellSet_dirty_perm (m : HeightMap) {rs rs' : List Rect} (h : rs.Perm rs') :
    (rs.foldl announce m).dirty.cellSet = (rs'.foldl announce m).dirty.cellSet :=
  Rect.cellSet_eq_of_subset_iff fun r => by
    simp only [dirty_announced_subset_iff, h.mem_iff]

end HeightMap

namespace Rect

/-- Rectangles with their unions, cut to a grid, tested for cells and measured; and so the ground
calls the same cells changed in whatever order rectangles are announced to it. -/
theorem cells_form_lattice (a b c : Rect) (size : UInt32) :
    ((a.cellSet ⊆ (a.union b).cellSet ∧ b.cellSet ⊆ (a.union b).cellSet) ∧
      ∀ r : Rect, a.cellSet ⊆ r.cellSet → b.cellSet ⊆ r.cellSet →
        (a.union b).cellSet ⊆ r.cellSet) ∧
    ((a.union b).cellSet = (b.union a).cellSet ∧
      ((a.union b).union c).cellSet = (a.union (b.union c)).cellSet ∧
      (a.union a).cellSet = a.cellSet) ∧
    (a.isEmpty = false ∨ b.isEmpty = false → a.union b = b.union a) ∧
    ((a.clipped size).cellSet = {p ∈ a.cellSet | p.1 < size ∧ p.2 < size} ∧
      (a.clipped size).Within size ∧
      (a.clipped size).clipped size = a.clipped size) ∧
    (a.isEmpty ↔ a.cellSet = ∅) ∧
    a.cellSet.encard = (a.width.toNat * a.height.toNat : Nat) ∧
    ∀ (m : HeightMap) (rs rs' : List Rect), rs.Perm rs' →
      (rs.foldl HeightMap.announce m).dirty.cellSet =
        (rs'.foldl HeightMap.announce m).dirty.cellSet :=
  ⟨⟨⟨subset_union_left a b, subset_union_right a b⟩, fun _ => union_subset⟩,
    ⟨cellSet_union_comm a b, cellSet_union_assoc a b c, cellSet_union_self a⟩, union_comm,
    ⟨cellSet_clipped a size, within_clipped a size, (within_clipped a size).clipped_eq⟩,
    cellSet_eq_empty.symm, encard_cellSet a, fun m _ _ => m.cellSet_dirty_perm⟩

theorem cells_form_lattice_inverted :
    (cell 1 2).isEmpty = false ∧ (⟨6, 7, 2, 3⟩ : Rect).union (cell 1 2) = cell 1 2 ∧
      (cell 1 2).union ⟨6, 7, 2, 3⟩ = cell 1 2 ∧
      (⟨6, 7, 2, 3⟩ : Rect).clipped 5 = ⟨5, 5, 5, 5⟩ ∧ (⟨6, 7, 2, 3⟩ : Rect).cellSet = ∅ := by
  obtain ⟨-, -, hcomm, -, hempty, -⟩ := cells_form_lattice ⟨6, 7, 2, 3⟩ (cell 1 2) empty 5
  have hcells : (cell 1 2).isEmpty = false := by decide
  have hunion : (⟨6, 7, 2, 3⟩ : Rect).union (cell 1 2) = cell 1 2 := by decide
  exact ⟨hcells, hunion, hcomm (.inr hcells) ▸ hunion, by decide, hempty.mp (by decide)⟩

end Rect

end Terrarium
