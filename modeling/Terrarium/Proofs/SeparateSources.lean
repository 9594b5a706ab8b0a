import Mathlib.Data.List.Perm.Basic
import Terrarium.Proofs.FluidDepths
import Terrarium.Proofs.GridLocality

namespace Terrarium

/-- The cells that a source fills: those of its rectangle that are on the grid and within its
radius. -/
def Reach.area (r : Reach) (size : UInt32) : Set (Nat × Nat) :=
  {p | p ∈ r.rect.cells ∧ r.covers p.1 p.2 ∧ p.1 < size.toNat ∧ p.2 < size.toNat}

namespace Reach

theorem upperBound_nan {centre radius : Float32} (hnan : (centre + radius).isNaN) :
    upperBound centre radius = 0 := by
  have hceil : Single.ceil (centre + radius) = centre + radius :=
    if_neg fun hbelow => Single.not_nan_left hbelow (Single.isNaN_abs hnan)
  have hlarger : Single.larger (centre + radius) (-1) = -1 := by
    refine if_neg ?_
    rw [Bool.or_eq_true, not_or]
    refine ⟨by decide +kernel, ?_⟩
    intro hbelow
    exact Single.not_nan_right (of_decide_eq_true hbelow) hnan
  rw [upperBound, hceil, hlarger]
  decide +kernel

theorem number_of_lt_upperBound {centre radius : Float32} {n : Nat}
    (hn : n < (upperBound centre radius).toNat) :
    centre.isNaN = false ∧ radius.isNaN = false := by
  have hsum : ¬(centre + radius).isNaN := by
    intro hnan
    rw [upperBound_nan hnan] at hn
    exact Nat.not_lt_zero n hn
  constructor
  · exact Bool.eq_false_iff.mpr fun hcentre => hsum (Single.isNaN_add_left hcentre radius)
  · exact Bool.eq_false_iff.mpr fun hradius => hsum (Single.isNaN_add_right centre hradius)

/-- In the rectangle of a mapped source all distances are numbers, and those up to the radius
count. -/
theorem covers_ofSource {s : Source} {size : UInt32} {x y : Nat}
    (hp : (x, y) ∈ (ofSource s size).rect.cells) :
    (ofSource s size).covers x y ↔ (Point.ofCell x y).distance s.pos ≤ s.radius := by
  obtain ⟨hcell, -⟩ := Rect.mem_cells_clipped.mp hp
  obtain ⟨⟨-, hx⟩, -, hy⟩ := Rect.mem_cells.mp hcell
  obtain ⟨hcolumn, hradius⟩ := number_of_lt_upperBound hx
  obtain ⟨hrow, -⟩ := number_of_lt_upperBound hy
  have hdistance : ((Point.ofCell x y).distance s.pos).isNaN = false :=
    Single.number_sqrt (Single.add_nonneg
      (Single.sq_nonneg (Single.number_sub (Single.isFinite_toFloat32 _) hcolumn))
      (Single.sq_nonneg (Single.number_sub (Single.isFinite_toFloat32 _) hrow)))
  rw [← Single.not_lt hradius hdistance, covers, Bool.not_eq_true', decide_eq_false_iff_not]
  exact Iff.rfl

end Reach

namespace Fluid

open Grid

variable {r s : Reach} {size : UInt32} {g h : Grid Cell} {p : Nat × Nat} {area : Set (Nat × Nat)}

theorem pourCell_outside (hp : p ∈ r.rect.cells) (hg : g.size = size) (budget : Float32) :
    Agree (r.area size)ᶜ (pourCell r (g, budget) p).1 g := by
  rcases pourCell_cases r g budget p with hsame | ⟨c, hc, hcovers, -, -, hpour⟩
  · rw [hsame]
    exact .refl _ g
  · have hgrid : p.1 < size.toNat ∧ p.2 < size.toNat :=
      hg ▸ get?_isSome.mp (Option.isSome_of_eq_some hc)
    have harea : p ∈ r.area size := ⟨hp, hcovers, hgrid⟩
    rw [hpour]
    exact (Local.modify Set.Subset.rfl harea _).outside g hg

theorem pourCell_inside (hp : p ∈ r.rect.cells) (hg : g.size = size)
    (hgh : Agree (r.area size) g h) (budget : Float32) :
    Agree (r.area size) (pourCell r (g, budget) p).1 (pourCell r (h, budget) p).1 ∧
      (pourCell r (g, budget) p).2 = (pourCell r (h, budget) p).2 := by
  rw [pourCell, pourCell]
  dsimp only
  split
  · exact ⟨hgh, rfl⟩
  · rename_i hpour
    simp only [Bool.or_eq_true, decide_eq_true_eq, Bool.not_eq_true', not_or,
      Bool.not_eq_false] at hpour
    have hcovers : r.covers p.1 p.2 := hpour.2
    have hcell : g.get? p.1 p.2 = h.get? p.1 p.2 := by
      by_cases hgrid : p.1 < g.size.toNat ∧ p.2 < g.size.toNat
      · exact hgh.get?_eq p.1 p.2 ⟨hp, hcovers, hg ▸ hgrid⟩
      · rw [get?_eq_none hgrid, get?_eq_none (hgh.size_eq ▸ hgrid)]
    rw [hcell]
    split
    · exact ⟨hgh, rfl⟩
    · split
      · exact ⟨hgh, rfl⟩
      · exact ⟨hgh.modify p.1 p.2 _, rfl⟩

theorem local_pour (r : Reach) (size : UInt32) :
    Local size (r.area size) (r.area size) fun g => pour g r where
  subset := Set.Subset.rfl
  outside := by
    suffices hrun : ∀ cells ⊆ r.rect.cells, ∀ state : Grid Cell × Float32, state.1.size = size →
        Agree (r.area size)ᶜ (cells.foldl (pourCell r) state).1 state.1 from
      fun g hg => hrun _ (List.Subset.refl _) (g, r.capacity) hg
    intro cells
    induction cells with
    | nil => exact fun _ state _ => .refl _ state.1
    | cons p cells ih =>
        rintro hcells ⟨g, budget⟩ hg
        obtain ⟨hp, hrest⟩ := List.cons_subset.mp hcells
        have hnext := (size_pourCell r (g, budget) p).trans hg
        exact (ih hrest _ hnext).trans (pourCell_outside hp hg budget)
  inside := by
    suffices hrun : ∀ cells ⊆ r.rect.cells, ∀ state state' : Grid Cell × Float32,
        state.1.size = size → Agree (r.area size) state.1 state'.1 → state.2 = state'.2 →
        Agree (r.area size) (cells.foldl (pourCell r) state).1
          (cells.foldl (pourCell r) state').1 from
      fun g h hg hgh => hrun _ (List.Subset.refl _) (g, r.capacity) (h, r.capacity) hg hgh rfl
    intro cells
    induction cells with
    | nil => exact fun _ _ _ _ hgh _ => hgh
    | cons p cells ih =>
        rintro hcells ⟨g, budget⟩ ⟨h, budget'⟩ hg hgh rfl
        obtain ⟨hp, hrest⟩ := List.cons_subset.mp hcells
        obtain ⟨hnext, hbudget⟩ := pourCell_inside hp hg hgh budget
        exact ih hrest _ _ ((size_pourCell r (g, budget) p).trans hg) hnext hbudget

theorem foldl_pour_perm {reaches reaches' : List Reach} (hperm : reaches.Perm reaches')
    (hapart : reaches.Pairwise fun r s => Disjoint (r.area g.size) (s.area g.size)) :
    reaches.foldl pour g = reaches'.foldl pour g := by
  induction hperm generalizing g with
  | nil => rfl
  | cons r _ ih =>
      -- Pouring keeps the size, so that the areas stay the same along the list.
      rw [← size_pour g r] at hapart
      exact ih (List.pairwise_cons.mp hapart).2
  | swap r s rest =>
      have hclear := Set.disjoint_left.mp ((List.pairwise_cons.mp hapart).1 r List.mem_cons_self)
      have hswap : pour (pour g s) r = pour (pour g r) s :=
        (local_pour r g.size).commute (local_pour s g.size)
          (fun p hr hs => hclear hs hr) (fun p hs hr => hclear hs hr) rfl
      rw [List.foldl_cons, List.foldl_cons, List.foldl_cons, List.foldl_cons, hswap]
  | trans hfirst _ ih ih' =>
      have hsymm : ∀ {r s : Reach}, Disjoint (r.area g.size) (s.area g.size) →
          Disjoint (s.area g.size) (r.area g.size) := fun h => h.symm
      exact (ih hapart).trans (ih' ((hfirst.pairwise_iff hsymm).mp hapart))

/-- Sources whose areas have no cell in common may be listed in any order, whatever the ground, the
depths and the levels are. -/
theorem step_perm {reaches reaches' : List Reach} (hperm : reaches.Perm reaches')
    (hapart : reaches.Pairwise fun r s => Disjoint (r.area g.size) (s.area g.size))
    (ocean : Float32) : step g ⟨reaches, ocean⟩ = step g ⟨reaches', ocean⟩ := by
  rw [step, step]
  dsimp only
  rw [foldl_pour_perm hperm hapart]

theorem step_perm_corner :
    let first := Reach.ofSource ⟨⟨1⟩, ⟨1, 1⟩, 1, 30, 7⟩ 6
    let second := Reach.ofSource ⟨⟨2⟩, ⟨3, 3⟩, 1, Single.inf, 0 / 0⟩ 6
    let g : Grid Cell := Grid.uniform 6 ⟨20, 0⟩
    (2, 2) ∈ first.rect.cells ∧ (2, 2) ∈ second.rect.cells ∧
      Disjoint (first.area 6) (second.area 6) ∧
      step g ⟨[first, second], 0⟩ = step g ⟨[second, first], 0⟩ := by
  intro first second g
  have hcorner : (2, 2) ∈ first.rect.cells ∧ (2, 2) ∈ second.rect.cells := by decide +kernel
  have hcells : ∀ p ∈ first.rect.cells, p ∈ second.rect.cells →
      ¬(first.covers p.1 p.2 ∧ second.covers p.1 p.2) := by decide +kernel
  have hclear : Disjoint (first.area 6) (second.area 6) := by
    refine Set.disjoint_left.mpr ?_
    rintro p ⟨hp, hfirst, -⟩ ⟨hp', hsecond, -⟩
    exact hcells p hp hp' ⟨hfirst, hsecond⟩
  exact ⟨hcorner.1, hcorner.2, hclear,
    step_perm (.swap second first []) (List.pairwise_pair.mpr hclear) 0⟩

end Fluid

end Terrarium
