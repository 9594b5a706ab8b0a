import Terrarium.Proofs.RasterPainting
import Terrarium.Proofs.SingleHalves

namespace Terrarium

open Single

variable {x a b t : Float32}

namespace Single

/-- A number from zero to a whole number. -/
structure UpTo (x : Float32) (n : Nat) : Prop where
  finite : x.isFinite
  nonneg : 0 ≤ units x
  le : units x ≤ n * units 1

instance (x : Float32) (n : Nat) : Decidable (UpTo x n) :=
  decidable_of_iff (x.isFinite ∧ 0 ≤ units x ∧ units x ≤ n * units 1)
    ⟨fun h => ⟨h.1, h.2.1, h.2.2⟩, fun h => ⟨h.finite, h.nonneg, h.le⟩⟩

theorem upTo_iff {n : UInt32} (hn : n.toNat < 2 ^ 24) :
    0 ≤ x ∧ x ≤ n.toFloat32 ↔ UpTo x n.toNat := by
  obtain ⟨hfinite, hunits⟩ := halves_iff.mp (halves_ofUInt32 n hn)
  have hzero : (0 : Float32).isNaN = false := rfl
  have hword : units n.toFloat32 = n.toNat * units 1 := by
    rw [hunits, units_one]
    omega
  constructor
  · rintro ⟨hpos, hle⟩
    exact ⟨isFinite_of_le hpos hle hfinite, units_nonneg hpos, hword ▸ (le_iff.mp hle).2⟩
  · intro h
    have hnumber := number_of_isFinite h.finite
    exact ⟨le_iff.mpr ⟨⟨hzero, hnumber⟩, h.nonneg⟩,
      le_iff.mpr ⟨⟨hnumber, number_of_isFinite hfinite⟩, hword ▸ h.le⟩⟩

theorem UpTo.toNat_le {n : Nat} (h : UpTo x n) (hn : n < 2 ^ 24) : x.toUInt32.toNat ≤ n := by
  have hpos := h.nonneg
  have hle := h.le
  rw [units_one] at hle
  rw [toNat_toUInt32 h.finite hpos (by omega)]
  omega

theorem Halves.upTo {i n : Nat} (hx : Halves x (2 * i)) (hi : i ≤ n) : UpTo x n := by
  obtain ⟨hfinite, hunits⟩ := halves_iff.mp hx
  refine ⟨hfinite, by omega, ?_⟩
  rw [hunits, units_one]
  omega

theorem Halves.sub_floor {i : Nat} (hx : Halves x (2 * i)) (hi : i < 2 ^ 24) :
    x.toUInt32.toNat = i ∧ Halves (x - x.toUInt32.toFloat32) 0 := by
  obtain ⟨hfinite, hunits⟩ := halves_iff.mp hx
  have hfloor : x.toUInt32.toNat = i := by
    rw [toNat_toUInt32 hfinite (by omega) (by omega)]
    omega
  have hword := halves_ofUInt32 x.toUInt32 (by omega)
  rw [hfloor] at hword
  have hrest := hx.sub hword (by omega)
  rw [Int.sub_self] at hrest
  exact ⟨hfloor, hrest⟩

theorem units_interpolate (ha : a.isFinite) (hdifference : (b - a).isFinite) (ht : Halves t 0) :
    (interpolate a b t).isFinite ∧ units (interpolate a b t) = units a := by
  obtain ⟨hfinite, hzero⟩ := halves_iff.mp ht
  rw [Int.zero_mul] at hzero
  obtain ⟨hnumber, hrounds⟩ := mul_rounds hdifference hfinite
  have hproduct : units ((b - a) * t) = 0 :=
    hrounds.eq_of_value (value_units 0) (by rw [hzero, Int.mul_zero, Int.zero_mul])
  have hproduct_finite := isFinite_of_bounds hnumber (by
    rw [hproduct]
    exact limit_pos)
  obtain ⟨hnumber, hrounds⟩ := add_rounds ha hproduct_finite
  have hsum : units (interpolate a b t) = units a :=
    hrounds.eq_of_value (value_units a)
      (by rw [hproduct, Int.add_zero, Int.natCast_one, Int.mul_one])
  have hbounds : -(limit : Int) < units a ∧ units a < limit := (canonical a).bounds ha
  exact ⟨isFinite_of_bounds hnumber (by omega), hsum⟩

end Single

/-- Whether a coordinate lies between the first and the last cell. -/
def Raster.spans (r : Raster Float32) (x : Float32) : Bool :=
  0 ≤ x && x ≤ (r.size - 1).toFloat32

namespace HeightMap

/-- The cell before a coordinate and the one after it, or the last one where there is none after it.
The program stops where a word overflows. -/
def neighbours? (size : UInt32) (x : Float32) : Option (Nat × Nat) := do
  let next ← Word.unsigned? 32 (x.toUInt32.toNat + 1)
  let last ← Word.difference? size.toNat 1
  return (x.toUInt32.toNat, min next last)

/-- The cells around a point, from the neighbours of its coordinates. -/
def corners (i j : Nat × Nat) : List (Nat × Nat) :=
  [(i.1, j.1), (i.2, j.1), (i.1, j.2), (i.2, j.2)]

/-- The height at a point, from the heights of the cells around it. -/
def blend (p : Point) (a b c d : Float32) : Float32 :=
  let fx := p.x - p.x.toUInt32.toFloat32
  let fy := p.y - p.y.toUInt32.toFloat32
  interpolate (interpolate a b fx) (interpolate c d fx) fy

/-- The height at a point, from heights in an array of any length; none off the grid. The program
stops where a word overflows and where a cell is not there. -/
def lookup? (r : Raster Float32) (p : Point) : Option (Option Float32) :=
  if r.size = 0 then some none
  else if r.spans p.x && r.spans p.y then do
    let i ← neighbours? r.size p.x
    let j ← neighbours? r.size p.y
    return some (blend p (← r.read? i.1 j.1) (← r.read? i.2 j.1) (← r.read? i.1 j.2)
      (← r.read? i.2 j.2))
  else some none

variable {m : HeightMap} {p : Point} {i j : Nat × Nat} {c d : Float32}

/-- The cells around a point and their heights. -/
structure Around (m : HeightMap) (p : Point) (i j : Nat × Nat) (a b c d : Float32) : Prop where
  columns : neighbours? m.size p.x = some i
  rows : neighbours? m.size p.y = some j
  topLeft : m.heightAt i.1 j.1 = some a
  topRight : m.heightAt i.2 j.1 = some b
  bottomLeft : m.heightAt i.1 j.2 = some c
  bottomRight : m.heightAt i.2 j.2 = some d

theorem lt_of_heightAt {u v : Nat} (h : m.heightAt u v = some a) :
    u < m.size.toNat ∧ v < m.size.toNat :=
  Grid.get?_isSome.mp (Option.isSome_of_eq_some h)

theorem Around.inside (h : m.Around p i j a b c d) :
    ∀ cell ∈ corners i j, cell.1 < m.size.toNat ∧ cell.2 < m.size.toNat := by
  simp only [corners, List.forall_mem_cons, List.not_mem_nil, false_imp_iff, implies_true, and_true]
  exact ⟨lt_of_heightAt h.topLeft, lt_of_heightAt h.topRight, lt_of_heightAt h.bottomLeft,
    lt_of_heightAt h.bottomRight⟩

theorem blend_beq (ha : InRange a) (hb : InRange b) (hc : InRange c) (hd : InRange d)
    (hx : Halves (p.x - p.x.toUInt32.toFloat32) 0)
    (hy : Halves (p.y - p.y.toUInt32.toFloat32) 0) : blend p a b c d == a := by
  obtain ⟨hafinite, hasmall⟩ := ha.small
  obtain ⟨hcfinite, hcsmall⟩ := hc.small
  obtain ⟨htop, hunits⟩ := units_interpolate hafinite (isFinite_sub hb.small.1 hafinite hasmall) hx
  obtain ⟨hbottom, -⟩ := units_interpolate hcfinite (isFinite_sub hd.small.1 hcfinite hcsmall) hx
  obtain ⟨hfinite, hsame⟩ :=
    units_interpolate htop (isFinite_sub hbottom htop (hunits ▸ hasmall)) hy
  exact beq_iff.mpr
    ⟨⟨number_of_isFinite hfinite, number_of_isFinite hafinite⟩, hsame.trans hunits⟩

section Addressable

-- All columns and rows can be told apart by single-precision coordinates.
variable (hpos : 1 ≤ m.size.toNat) (hsize : m.size.toNat ≤ 2 ^ 24)

include hpos hsize

theorem spans_iff : m.spans x ↔ UpTo x (m.size.toNat - 1) := by
  have hlast : (m.size - 1).toNat = m.size.toNat - 1 :=
    UInt32.toNat_sub_of_le _ _ (UInt32.le_iff_toNat_le.mpr hpos)
  rw [← hlast, ← upTo_iff (by omega), spans, Bool.and_eq_true, decide_eq_true_eq,
    decide_eq_true_eq]

theorem neighbours?_eq (hx : UpTo x (m.size.toNat - 1)) :
    neighbours? m.size x =
      some (x.toUInt32.toNat, min (x.toUInt32.toNat + 1) (m.size.toNat - 1)) := by
  have hfloor := hx.toNat_le (by omega)
  have hlast : Word.difference? m.size.toNat 1 = some (m.size.toNat - 1) := if_pos hpos
  rw [neighbours?, Word.unsigned?_eq (by omega), hlast]
  rfl

theorem exists_around (hx : UpTo p.x (m.size.toNat - 1)) (hy : UpTo p.y (m.size.toNat - 1)) :
    ∃ i j a b c d, m.Around p i j a b c d := by
  have hcolumn := hx.toNat_le (by omega)
  have hrow := hy.toNat_le (by omega)
  have hfirst : p.x.toUInt32.toNat < m.size.toNat ∧ p.y.toUInt32.toNat < m.size.toNat := by omega
  have hnext (u : Nat) : min (u + 1) (m.size.toNat - 1) < m.size.toNat := by omega
  have hheight {u v : Nat} (hu : u < m.size.toNat) (hv : v < m.size.toNat) :
      ∃ h, m.heightAt u v = some h :=
    Option.isSome_iff_exists.mp (Grid.get?_isSome.mpr ⟨hu, hv⟩)
  obtain ⟨a, ha⟩ := hheight hfirst.1 hfirst.2
  obtain ⟨b, hb⟩ := hheight (hnext p.x.toUInt32.toNat) hfirst.2
  obtain ⟨c, hc⟩ := hheight hfirst.1 (hnext p.y.toUInt32.toNat)
  obtain ⟨d, hd⟩ := hheight (hnext p.x.toUInt32.toNat) (hnext p.y.toUInt32.toNat)
  exact ⟨_, _, a, b, c, d, neighbours?_eq hpos hsize hx, neighbours?_eq hpos hsize hy,
    ha, hb, hc, hd⟩

theorem lookup_outside (h : ¬(UpTo p.x (m.size.toNat - 1) ∧ UpTo p.y (m.size.toNat - 1))) :
    m.lookup p = none ∧ lookup? (.ofGrid m.heights) p = some none := by
  have hspans : ¬(m.spans p.x && m.spans p.y) := by
    rwa [Bool.and_eq_true, spans_iff hpos hsize, spans_iff hpos hsize]
  by_cases hzero : m.size = 0
  · exact ⟨if_pos hzero, if_pos hzero⟩
  · constructor
    · rw [lookup, if_neg hzero, if_neg hspans]
    · change (if m.size = 0 then _ else if m.spans p.x && m.spans p.y then _ else _) = _
      rw [if_neg hzero, if_neg hspans]

theorem Around.lookup_eq (h : m.Around p i j a b c d) (hx : UpTo p.x (m.size.toNat - 1))
    (hy : UpTo p.y (m.size.toNat - 1)) :
    m.lookup p = some (blend p a b c d) ∧
      lookup? (.ofGrid m.heights) p = some (some (blend p a b c d)) := by
  have hsome : m.size ≠ 0 := by
    intro hzero
    rw [hzero] at hpos
    exact absurd hpos (by decide)
  have hspans : (m.spans p.x && m.spans p.y) = true :=
    Bool.and_eq_true_iff.mpr ⟨(spans_iff hpos hsize).mpr hx, (spans_iff hpos hsize).mpr hy⟩
  constructor
  · obtain rfl := Option.some.inj ((neighbours?_eq hpos hsize hx).symm.trans h.columns)
    obtain rfl := Option.some.inj ((neighbours?_eq hpos hsize hy).symm.trans h.rows)
    obtain ⟨-, -, ha, hb, hc, hd⟩ := h
    dsimp only at ha hb hc hd
    rw [lookup, if_neg hsome, if_pos hspans]
    simp only [ha, hb, hc, hd]
    rfl
  · have hread {u v : Nat} {a : Float32} (h : m.heightAt u v = some a) :
        (Raster.ofGrid m.heights).read? u v = some a :=
      (Raster.read?_ofGrid (lt_of_heightAt h).1 (lt_of_heightAt h).2).trans h
    change (if m.size = 0 then _ else if m.spans p.x && m.spans p.y then
      (neighbours? m.size p.x).bind fun i => (neighbours? m.size p.y).bind fun j => _ else _) = _
    rw [if_neg hsome, if_pos hspans, h.columns, h.rows, Option.bind_some, Option.bind_some,
      hread h.topLeft, hread h.topRight, hread h.bottomLeft, hread h.bottomRight]
    rfl

theorem lookup_eq_none_iff :
    m.lookup p = none ↔ ¬(UpTo p.x (m.size.toNat - 1) ∧ UpTo p.y (m.size.toNat - 1)) := by
  refine ⟨?_, fun h => (lookup_outside hpos hsize h).1⟩
  rintro hnone ⟨hx, hy⟩
  obtain ⟨i, j, a, b, c, d, haround⟩ := exists_around hpos hsize hx hy
  rw [(haround.lookup_eq hpos hsize hx hy).1] at hnone
  exact Option.some_ne_none _ hnone

theorem lookup?_ofGrid (p : Point) : lookup? (.ofGrid m.heights) p = some (m.lookup p) := by
  by_cases hspans : UpTo p.x (m.size.toNat - 1) ∧ UpTo p.y (m.size.toNat - 1)
  · obtain ⟨i, j, a, b, c, d, haround⟩ := exists_around hpos hsize hspans.1 hspans.2
    obtain ⟨hlookup, hchecked⟩ := haround.lookup_eq hpos hsize hspans.1 hspans.2
    rw [hchecked, hlookup]
  · obtain ⟨hlookup, hchecked⟩ := lookup_outside hpos hsize hspans
    rw [hchecked, hlookup]

theorem exists_lookup_cell (hheights : m.heights.All InRange) {i j : Nat} (hi : i < m.size.toNat)
    (hj : j < m.size.toNat) (hx : Halves p.x (2 * i)) (hy : Halves p.y (2 * j)) :
    ∃ h h', m.lookup p = some h ∧ m.heightAt i j = some h' ∧ h == h' := by
  obtain ⟨hcolumn, hfx⟩ := hx.sub_floor (by omega)
  obtain ⟨hrow, hfy⟩ := hy.sub_floor (by omega)
  have hspanx : UpTo p.x (m.size.toNat - 1) := hx.upTo (by omega)
  have hspany : UpTo p.y (m.size.toNat - 1) := hy.upTo (by omega)
  obtain ⟨u, v, a, b, c, d, haround⟩ := exists_around hpos hsize hspanx hspany
  have hblend := blend_beq (hheights haround.topLeft) (hheights haround.topRight)
    (hheights haround.bottomLeft) (hheights haround.bottomRight) hfx hfy
  obtain rfl := Option.some.inj ((neighbours?_eq hpos hsize hspanx).symm.trans haround.columns)
  obtain rfl := Option.some.inj ((neighbours?_eq hpos hsize hspany).symm.trans haround.rows)
  refine ⟨_, a, (haround.lookup_eq hpos hsize hspanx hspany).1, ?_, hblend⟩
  rw [← hcolumn, ← hrow]
  exact haround.topLeft

end Addressable

/-- Ground is looked up exactly between its first and its last cell. All cells that are read there
are on the grid, also on the last row and column, so that the program does not stop. At a cell, the
height is the one that the cell has. -/
theorem lookup_exact (m : HeightMap) (hpos : 1 ≤ m.size.toNat) (hsize : m.size.toNat ≤ 2 ^ 24)
    (p : Point) :
    (m.lookup p = none ↔ ¬(UpTo p.x (m.size.toNat - 1) ∧ UpTo p.y (m.size.toNat - 1))) ∧
    (UpTo p.x (m.size.toNat - 1) → UpTo p.y (m.size.toNat - 1) →
      ∃ i j, neighbours? m.size p.x = some i ∧ neighbours? m.size p.y = some j ∧
        ∀ cell ∈ corners i j, cell.1 < m.size.toNat ∧ cell.2 < m.size.toNat) ∧
    lookup? (.ofGrid m.heights) p = some (m.lookup p) ∧
    (m.heights.All InRange → ∀ i j : Nat, i < m.size.toNat → j < m.size.toNat →
      Halves p.x (2 * i) → Halves p.y (2 * j) →
      ∃ h h', m.lookup p = some h ∧ m.heightAt i j = some h' ∧ h == h') := by
  refine ⟨lookup_eq_none_iff hpos hsize, ?_, lookup?_ofGrid hpos hsize p, ?_⟩
  · intro hx hy
    obtain ⟨i, j, a, b, c, d, haround⟩ := exists_around hpos hsize hx hy
    exact ⟨i, j, haround.columns, haround.rows, haround.inside⟩
  · intro hheights i j hi hj hx hy
    exact exists_lookup_cell hpos hsize hheights hi hj hx hy

theorem lookup_exact_last :
    (level 4 20).lookup ⟨3, 3.5⟩ = none ∧
    ∃ h h', (level 4 20).lookup ⟨3, 3⟩ = some h ∧ (level 4 20).heightAt 3 3 = some h' ∧
      h == h' := by
  have hrange : InRange 20 := ⟨by decide +kernel, by decide +kernel⟩
  obtain ⟨hnone, -⟩ := lookup_exact (level 4 20) (by decide) (by decide) ⟨3, 3.5⟩
  obtain ⟨-, -, -, hcell⟩ := lookup_exact (level 4 20) (by decide) (by decide) ⟨3, 3⟩
  exact ⟨hnone.mpr (by decide +kernel), hcell (Grid.all_uniform hrange 4) 3 3 (by decide)
    (by decide) (by decide +kernel) (by decide +kernel)⟩

end HeightMap

end Terrarium
