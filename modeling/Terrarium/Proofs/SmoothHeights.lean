import Terrarium.Painting
import Terrarium.Proofs.GridCells
import Terrarium.Proofs.SingleArithmetic

namespace Terrarium

open Single

variable {u l h : Float32}

/-- The products that make the cube of a number, six times, are numbers themselves. -/
structure ExactCube (u : Float32) : Prop where
  first : ExactProduct 6 u
  second : ExactProduct (6 * u) u
  third : ExactProduct (6 * u * u) u
  nonneg : 0 ≤ u ∧ 0 ≤ 6 * u ∧ 0 ≤ 6 * u * u
  finite : u.isFinite ∧ (6 * u).isFinite ∧ (6 * u * u).isFinite

/-- Distances between which the window is seen not to be negative by its terms at the bounds. -/
structure WindowPiece (l h : Float32) : Prop where
  low : ExactCube l
  high : ExactCube h
  cube : 6 * h * h * h ≤ 1
  rest : (1 - 6 * h * h).isFinite ∧ units 1 - units (6 * h * h) = units (1 - 6 * h * h)
  sum : 0 ≤ units (1 - 6 * h * h) + units (6 * l * l * l)

/-- The terms of the window grow with the distance. -/
structure CubeBetween (l h u : Float32) : Prop where
  first : 6 * l ≤ 6 * u ∧ 6 * u ≤ 6 * h
  second : 6 * l * l ≤ 6 * u * u ∧ 6 * u * u ≤ 6 * h * h
  third : 6 * l * l * l ≤ 6 * u * u * u ∧ 6 * u * u * u ≤ 6 * h * h * h

theorem ExactCube.between (hl : ExactCube l) (hh : ExactCube h) (hlu : l ≤ u) (huh : u ≤ h) :
    CubeBetween l h u := by
  have hsix : (0 : Float32) ≤ 6 ∧ (6 : Float32).isFinite := by decide +kernel
  have hu := le_trans hl.nonneg.1 hlu
  have hfu := isFinite_of_le hu huh hh.finite.1
  have hlow := exact_le_mul hl.first hsix.1 (le_refl rfl) hl.nonneg.1 hlu hsix.2 hfu
  have hhigh := mul_le_exact hh.first hsix.1 (le_refl rfl) hu huh hsix.2 hh.finite.1
  have hpos := le_trans hl.nonneg.2.1 hlow
  have hf := isFinite_of_le hpos hhigh hh.finite.2.1
  have hlow' := exact_le_mul hl.second hl.nonneg.2.1 hlow hl.nonneg.1 hlu hf hfu
  have hhigh' := mul_le_exact hh.second hpos hhigh hu huh hh.finite.2.1 hh.finite.1
  have hpos' := le_trans hl.nonneg.2.2 hlow'
  have hf' := isFinite_of_le hpos' hhigh' hh.finite.2.2
  exact ⟨⟨hlow, hhigh⟩, ⟨hlow', hhigh'⟩,
    exact_le_mul hl.third hl.nonneg.2.2 hlow' hl.nonneg.1 hlu hf' hfu,
    mul_le_exact hh.third hpos' hhigh' hu huh hh.finite.2.2 hh.finite.1⟩

theorem WindowPiece.window_bounds (hpiece : WindowPiece l h) (hlu : l ≤ u) (huh : u ≤ h) :
    0 ≤ 1 - 6 * u * u + 6 * u * u * u ∧ 1 - 6 * u * u + 6 * u * u * u ≤ 2 := by
  obtain ⟨-, ⟨hlow, hhigh⟩, hlow', hhigh'⟩ := hpiece.low.between hpiece.high hlu huh
  have hpos := le_trans hpiece.low.nonneg.2.2 hlow
  have hf := isFinite_of_le hpos hhigh hpiece.high.finite.2.2
  have hpos' : 0 ≤ 6 * u * u * u :=
    mul_nonneg hpos (le_trans hpiece.low.nonneg.1 hlu) hf
      (isFinite_of_le (le_trans hpiece.low.nonneg.1 hlu) huh hpiece.high.finite.1)
  have hone := le_trans hhigh' hpiece.cube
  have hf' := isFinite_of_le hpos' hone rfl
  have hunits := (le_iff.mp hpiece.cube).2
  have hunit : units 2 = units 1 + units 1 ∧ units 1 < limit := by decide +kernel
  obtain ⟨hnumber, hrounds⟩ := sub_rounds (x := 1) rfl hf
  -- The difference is the least at the greater bound, and the cube is the least at the lower one.
  have hleast := hrounds.le (value_units (1 - 6 * h * h)) (by
    have := (le_iff.mp hhigh).2
    have := hpiece.rest.2
    omega)
  have hgreatest := hrounds.ge (value_units 1) (by
    have := units_nonneg hpos
    omega)
  have hdifference : (1 - 6 * u * u).isFinite := by
    have := ((canonical (1 - 6 * h * h)).bounds hpiece.rest.1).1
    apply isFinite_of_bounds hnumber
    rw [← units] at this
    omega
  obtain ⟨hsum, hrounds⟩ := add_rounds hdifference hf'
  have hcube := (le_iff.mp hlow').2
  have hcube' := (le_iff.mp hone).2
  have hpiece_sum := hpiece.sum
  exact ⟨le_iff.mpr ⟨⟨rfl, hsum⟩, hrounds.le (value_units 0) (by rw [units_zero]; omega)⟩,
    le_iff.mpr ⟨⟨hsum, rfl⟩, hrounds.ge (value_units 2) (by omega)⟩⟩

theorem exactCube_bounds : ExactCube 0 ∧ ExactCube 0.375 ∧ ExactCube 0.4375 ∧ ExactCube 0.5 := by
  refine ⟨?_, ?_, ?_, ?_⟩ <;> constructor <;> decide +kernel

theorem window_pieces :
    WindowPiece 0 0.375 ∧ WindowPiece 0.375 0.4375 ∧ WindowPiece 0.4375 0.5 := by
  obtain ⟨h₀, h₁, h₂, h₃⟩ := exactCube_bounds
  refine ⟨⟨h₀, h₁, ?_, ?_, ?_⟩, ⟨h₁, h₂, ?_, ?_, ?_⟩, ⟨h₂, h₃, ?_, ?_, ?_⟩⟩ <;> decide +kernel

theorem fraction_mul {t u : Float32} (ht : 0 ≤ t ∧ t ≤ 1) (hu : 0 ≤ u ∧ u ≤ 1) :
    0 ≤ t * u ∧ t * u ≤ 1 := by
  have hexact : ExactProduct 1 1 ∧ (1 : Float32) * 1 = 1 := by decide +kernel
  have hle := mul_le_exact hexact.1 ht.1 ht.2 hu.1 hu.2 rfl rfl
  rw [hexact.2] at hle
  exact ⟨mul_nonneg ht.1 hu.1 (isFinite_of_le ht.1 ht.2 rfl) (isFinite_of_le hu.1 hu.2 rfl), hle⟩

theorem cube_bounds {t : Float32} (ht : 0 ≤ t ∧ t ≤ 1) :
    0 ≤ 2 * Single.cube t ∧ 2 * Single.cube t ≤ 2 := by
  have hexact : ExactProduct 2 1 ∧ (2 : Float32) * 1 = 2 ∧ (0 : Float32) ≤ 2 := by decide +kernel
  obtain ⟨hpos, hle⟩ := fraction_mul (fraction_mul ht ht) ht
  have hdouble := mul_le_exact hexact.1 hexact.2.2 (le_refl rfl) hpos hle rfl rfl
  rw [hexact.2.1] at hdouble
  exact ⟨mul_nonneg hexact.2.2 hpos rfl (isFinite_of_le hpos hle rfl), hdouble⟩

theorem parzen_bounds (hu : u.isNaN = false) : 0 ≤ parzen u ∧ parzen u ≤ 2 := by
  have habs := abs_nonneg hu
  have hnumber := number_of_le_right habs
  rw [parzen]
  generalize u.abs = u at habs hnumber ⊢
  split
  · rename_i hnear
    obtain ⟨hfirst, hsecond, hthird⟩ := window_pieces
    by_cases hone : u ≤ 0.375
    · exact hfirst.window_bounds habs hone
    · rw [not_le hnumber rfl] at hone
      by_cases htwo : u ≤ 0.4375
      · exact hsecond.window_bounds (le_of_lt hone) htwo
      · rw [not_le hnumber rfl] at htwo
        exact hthird.window_bounds (le_of_lt htwo) hnear
  · split
    · rename_i hfar
      obtain ⟨hdifference, hrounds⟩ := sub_rounds (x := 1) rfl (isFinite_of_le habs hfar rfl)
      have hunits := units_nonneg habs
      have hone := (le_iff.mp hfar).2
      exact cube_bounds ⟨le_iff.mpr ⟨⟨rfl, hdifference⟩,
          hrounds.le (value_units 0) (by rw [units_zero]; omega)⟩,
        le_iff.mpr ⟨⟨hdifference, rfl⟩, hrounds.ge (value_units 1) (by omega)⟩⟩
    · exact ⟨le_refl rfl, by decide +kernel⟩

namespace HeightMap

theorem number_distance (x y i j : Nat) :
    ((Point.ofCell x y).distance (Point.ofCell i j)).isNaN = false := by
  have hdifference (m n : UInt64) : (m.toFloat32 - n.toFloat32).isNaN = false :=
    (sub_rounds (isFinite_toFloat32 m) (isFinite_toFloat32 n)).1
  exact number_sqrt (add_nonneg (sq_nonneg (hdifference _ _)) (sq_nonneg (hdifference _ _)))

theorem smoothWeight_bounds (x y : Nat) (p : Nat × Nat) :
    0 ≤ smoothWeight x y p ∧ smoothWeight x y p ≤ 2 :=
  parzen_bounds
    (number_div (number_distance p.1 p.2 x y) (isFinite_toFloat32 _) (by decide +kernel))

theorem smoothWeight_self (x y : Nat) : smoothWeight x y (x, y) = 1 := by
  have hsub (n : UInt64) : n.toFloat32 - n.toFloat32 = 0 := sub_self (isFinite_toFloat32 n)
  have hpoint : Point.ofCell x y - Point.ofCell x y = ⟨0, 0⟩ := by
    change Point.mk _ _ = _
    rw [Point.ofCell, hsub, hsub]
  rw [smoothWeight, Point.distance, hpoint]
  decide +kernel

/-- A number in the range of heights that can be set. -/
def InRange (h : Float32) : Prop := lowest ≤ h ∧ h ≤ highest

/-- One cell more in the sums of the weights and of the weighted heights. -/
def weigh (g : Grid Float32) (x y : Nat) (s : Float32 × Float32) (p : Nat × Nat) :
    Float32 × Float32 :=
  match g.get? p.1 p.2 with
  | some h => (s.1 + smoothWeight x y p, s.2 + h * smoothWeight x y p)
  | none => s

theorem average_eq (g : Grid Float32) (x y : Nat) :
    average g x y = if 0 < ((around g.size x y).foldl (weigh g x y) (0, 0)).1 then
      some (((around g.size x y).foldl (weigh g x y) (0, 0)).2 /
        ((around g.size x y).foldl (weigh g x y) (0, 0)).1) else none := rfl

/-- Sums over some cells. -/
structure Sums (n : Nat) (s : Float32 × Float32) : Prop where
  weights : 0 ≤ s.1 ∧ units s.1 ≤ n * units 1000
  heights : 0 ≤ s.2 ∧ units s.2 ≤ n * units 1000

variable {n : Nat} {a b : Float32} {s : Float32 × Float32} {g : Grid Float32} {x y : Nat}

theorem value_thousands (hn : n ≤ 36) : Value (n * units 1000) ∧ n * units 1000 < limit := by
  have hmantissa : n * 1000 < 2 ^ 24 := by omega
  have hunits : units 1000 = (1000 * 2 ^ 149 : Nat) := by decide +kernel
  have hlimit : n * (1000 * 2 ^ 149) < limit :=
    (Nat.mul_le_mul_right _ hn).trans_lt (by decide)
  rw [hunits, ← Int.natCast_mul]
  refine ⟨⟨⟨n * 1000, 0, hmantissa, by decide, ?_⟩, ?_⟩, Int.ofNat_lt.mpr hlimit⟩
  · rw [Int.natAbs_natCast, scaled, Nat.mul_assoc]
    rfl
  · rw [Int.natAbs_natCast]
    exact Nat.le_of_lt hlimit

theorem add_thousands (hn : n < 36) (ha : 0 ≤ a ∧ units a ≤ n * units 1000)
    (hb : 0 ≤ b ∧ b ≤ 1000) :
    a ≤ a + b ∧ 0 ≤ a + b ∧ units (a + b) ≤ (n + 1 : Nat) * units 1000 := by
  have hle := le_add ha.1 hb.1
  have hfinite : a.isFinite :=
    isFinite_of_nonneg ha.1 (Int.lt_of_le_of_lt ha.2 (value_thousands (Nat.le_of_lt hn)).2)
  obtain ⟨-, hrounds⟩ := add_rounds hfinite (isFinite_of_le hb.1 hb.2 rfl)
  refine ⟨hle, le_trans ha.1 hle, hrounds.ge (value_thousands hn).1 ?_⟩
  have hunits := (le_iff.mp hb.2).2
  rw [Int.natCast_add, Int.add_mul]
  omega

theorem Sums.weigh (hs : Sums n s) (hn : n < 36) (hg : g.All InRange) (p : Nat × Nat) :
    Sums (n + 1) (weigh g x y s p) ∧ s.1 ≤ (HeightMap.weigh g x y s p).1 := by
  obtain ⟨hpos, hle⟩ := smoothWeight_bounds x y p
  have hthousand : (2 : Float32) ≤ 1000 ∧ ExactProduct 500 2 ∧ (500 : Float32) * 2 = 1000 := by
    decide +kernel
  rw [HeightMap.weigh]
  cases hh : g.get? p.1 p.2 with
  | none =>
      have hunits : 0 ≤ units 1000 := by decide +kernel
      have hmore : (n * units 1000 : Int) ≤ (n + 1 : Nat) * units 1000 := by
        rw [Int.natCast_add, Int.add_mul]
        omega
      exact ⟨⟨⟨hs.weights.1, hs.weights.2.trans hmore⟩, hs.heights.1, hs.heights.2.trans hmore⟩,
        le_refl (number_of_le_right hs.weights.1)⟩
  | some h =>
      obtain ⟨hlow, hhigh⟩ := hg hh
      have hproduct := mul_le_exact hthousand.2.1 hlow hhigh hpos hle rfl rfl
      rw [hthousand.2.2] at hproduct
      have hproduct' := mul_nonneg hlow hpos (isFinite_of_le hlow hhigh rfl)
        (isFinite_of_le hpos hle rfl)
      obtain ⟨hmore, hweights⟩ := add_thousands hn hs.weights ⟨hpos, le_trans hle hthousand.1⟩
      obtain ⟨-, hheights⟩ := add_thousands hn hs.heights ⟨hproduct', hproduct⟩
      exact ⟨⟨hweights, hheights⟩, hmore⟩

theorem Sums.foldl (hs : Sums n s) (hg : g.All InRange) (cells : List (Nat × Nat))
    (hn : n + cells.length ≤ 36) :
    Sums (n + cells.length) (cells.foldl (HeightMap.weigh g x y) s) ∧
      s.1 ≤ (cells.foldl (HeightMap.weigh g x y) s).1 := by
  induction cells generalizing n s with
  | nil => exact ⟨hs, le_refl (number_of_le_right hs.weights.1)⟩
  | cons p cells ih =>
      rw [List.length_cons] at hn ⊢
      obtain ⟨hnext, hle⟩ := hs.weigh (x := x) (y := y) (by omega) hg p
      obtain ⟨hall, hle'⟩ := ih hnext (by omega)
      rw [Nat.add_right_comm] at hall
      exact ⟨hall, le_trans hle hle'⟩

theorem length_around (size : UInt32) (x y : Nat) : (around size x y).length ≤ 36 := by
  have hside (v : Nat) : min (v + smoothWindow) size.toNat - (v - smoothWindow) ≤ 6 := by
    rw [smoothWindow]
    omega
  have hlength : (around size x y).length =
      (min (y + smoothWindow) size.toNat - (y - smoothWindow)) *
        (min (x + smoothWindow) size.toNat - (x - smoothWindow)) := by
    simp [around, List.length_flatMap]
  rw [hlength]
  exact Nat.mul_le_mul (hside y) (hside x)

theorem mem_around {size : UInt32} (hx : x < size.toNat) (hy : y < size.toNat) :
    (x, y) ∈ around size x y := by
  have hmem {v : Nat} (hv : v < size.toNat) : v ∈ List.range' (v - smoothWindow)
      (min (v + smoothWindow) size.toNat - (v - smoothWindow)) := by
    rw [smoothWindow, List.mem_range'_1]
    omega
  rw [around, List.mem_flatMap]
  exact ⟨y, hmem hy, List.mem_map.mpr ⟨x, hmem hx, rfl⟩⟩

theorem Sums.one_le_weigh (hs : Sums n s) (hn : n < 36) {h : Float32} (hh : g.get? x y = some h) :
    1 ≤ (HeightMap.weigh g x y s (x, y)).1 := by
  have hfinite : s.1.isFinite := isFinite_of_nonneg hs.weights.1
    (Int.lt_of_le_of_lt hs.weights.2 (value_thousands (Nat.le_of_lt hn)).2)
  have hunits := units_nonneg hs.weights.1
  rw [HeightMap.weigh, hh]
  dsimp only
  rw [smoothWeight_self]
  obtain ⟨hnumber, hrounds⟩ := add_rounds hfinite (y := 1) rfl
  exact le_iff.mpr ⟨⟨rfl, hnumber⟩, hrounds.le (value_units 1) (by omega)⟩

theorem sums_around (hg : g.All InRange) {h : Float32} (hh : g.get? x y = some h) :
    Sums (around g.size x y).length ((around g.size x y).foldl (weigh g x y) (0, 0)) ∧
      1 ≤ ((around g.size x y).foldl (weigh g x y) (0, 0)).1 := by
  have hcell := Grid.get?_isSome.mp (Option.isSome_of_eq_some hh)
  have hlength := length_around g.size x y
  obtain ⟨front, rest, hsplit⟩ := List.append_of_mem (mem_around hcell.1 hcell.2)
  rw [hsplit] at hlength ⊢
  rw [List.length_append, List.length_cons] at hlength ⊢
  have hzero : Sums 0 (0, 0) := by
    constructor <;> rw [Int.natCast_zero, Int.zero_mul] <;> decide +kernel
  obtain ⟨hfront, -⟩ := hzero.foldl (x := x) (y := y) hg front (by omega)
  rw [Nat.zero_add] at hfront
  have hone := hfront.one_le_weigh (by omega) hh
  obtain ⟨hself, -⟩ := hfront.weigh (x := x) (y := y) (by omega) hg (x, y)
  obtain ⟨hall, hmore⟩ := hself.foldl (x := x) (y := y) hg rest (by omega)
  rw [List.foldl_append, List.foldl_cons]
  rw [Nat.add_assoc, Nat.add_comm 1] at hall
  exact ⟨hall, le_trans hone hmore⟩

/-- Where all heights are in the range that can be set, the average around a cell is a finite
number. -/
theorem isFinite_average (hg : g.All InRange) {h : Float32} (hh : g.get? x y = some h)
    (ha : average g x y = some a) : a.isFinite := by
  obtain ⟨hsums, hone⟩ := sums_around hg hh
  rw [average_eq] at ha
  split at ha
  · cases ha
    have hfinite : ((around g.size x y).foldl (weigh g x y) (0, 0)).2.isFinite :=
      isFinite_of_nonneg hsums.heights.1
        (Int.lt_of_le_of_lt hsums.heights.2 (value_thousands (length_around _ _ _)).2)
    obtain ⟨hpos, hle⟩ := div_le hfinite hsums.heights.1 hone
    exact isFinite_of_le hpos hle hfinite
  · cases ha

theorem InRange.small (hh : InRange h) : h.isFinite ∧ (units h).natAbs < 2 ^ 252 := by
  have hhighest : units highest < 2 ^ 252 := by decide +kernel
  have hpos := units_nonneg hh.1
  have hle := (le_iff.mp hh.2).2
  exact ⟨isFinite_of_le hh.1 hh.2 rfl, by omega⟩

/-- Going from a height toward a finite one, by a finite weight, ends at a number. -/
theorem number_interpolate {h t d : Float32} (hh : InRange h) (ht : t.isFinite)
    (hd : d.isFinite) : (interpolate h t d).isNaN = false :=
  number_add hh.small.1 (mul_rounds (isFinite_sub ht hh.small.1 hh.small.2) hd).1

end HeightMap

end Terrarium
