import Terrarium.Proofs.Rasters
import Terrarium.Proofs.SmoothHeights
import Terrarium.Proofs.WorldChange

namespace Terrarium

namespace Brush

def validate? (b : Brush) : Option (Except Failure Unit) :=
  if b.size = 0 then some (.error Objection.emptyBrush.failure)
  else if !(b.xc.isFinite && b.yc.isFinite) then some (.error Objection.centreNotFinite.failure)
  else do
    let expected ← Word.unsigned? 64 (b.size.toNat * b.size.toNat)
    if b.density.size ≠ expected then
      return .error (Objection.densityCount b.density.size expected).failure
    else return .ok ()

/-- The part of the brush's cells that lies on a grid. -/
def clipped (b : Brush) (grid : UInt32) : Rect :=
  ⟨clip grid b.left, clip grid b.top, clip grid (Word.saturated (b.left + b.size.toNat)),
    clip grid (Word.saturated (b.top + b.size.toNat))⟩

def footprint? (b : Brush) (grid : UInt32) : Option (Except Failure Rect) := do
  match ← b.validate? with
  | .error e => return .error e
  | .ok _ =>
      if (b.clipped grid).isEmpty then return .error .outOfBounds
      else return .ok (b.clipped grid)

/-- The place of a grid cell among the brush's densities. -/
def index? (b : Brush) (x y : Nat) : Option Nat := do
  let down ← Word.signed? (y - b.top)
  let right ← Word.signed? (x - b.left)
  let row ← Word.unsigned? 64 (Word.reread down * b.size.toNat)
  Word.unsigned? 64 (row + Word.reread right)

/-- Paints one cell. The program stops if the cell has no density. -/
def paintCell? {α : Type} (b : Brush)
    (rule? : Raster α → Nat → Nat → Float32 → Option (Raster α)) (r : Raster α) (p : Nat × Nat) :
    Option (Raster α) := do
  let i ← b.index? p.1 p.2
  let density ← b.density[i]?
  rule? r p.1 p.2 (b.strength * density)

/-- Paints the cells of a brush that lie on a grid. -/
def paint? {α : Type} (b : Brush) (grid : UInt32)
    (rule? : Raster α → Nat → Nat → Float32 → Option (Raster α)) (r : Raster α) :
    Option (Except Failure (Rect × Raster α)) := do
  match ← b.footprint? grid with
  | .error e => return .error e
  | .ok rect => return .ok (rect, ← rect.cells.foldlM (b.paintCell? rule?) r)

variable {α : Type} {b : Brush} {grid : UInt32} {x y : Nat}

theorem validate?_eq (b : Brush) : b.validate? = some b.validate := by
  rw [validate?, validate]
  split
  · rfl
  · split
    · rfl
    · rw [Word.unsigned?_eq (Word.mul_self_lt b.size)]
      change ite _ _ _ = _
      split <;> rfl

theorem toNat_clip (grid : UInt32) (v : Int) :
    ((clip grid v).toNat : Int) = max 0 (min v grid.toNat) := by
  have hgrid := grid.toNat_lt
  rw [clip]
  split
  · change (0 : Int) = _
    omega
  · split
    · rw [UInt32.toNat_ofNat_of_lt' (by change _ < 2 ^ 32; omega)]
      omega
    · omega

/-- Saturation happens only where it is cut off anyhow. -/
theorem clip_saturated (grid : UInt32) (v : Int) : clip grid (Word.saturated v) = clip grid v := by
  have hgrid := grid.toNat_lt
  rw [← UInt32.toNat_inj, ← Int.natCast_inj, toNat_clip, toNat_clip, Word.saturated]
  omega

theorem clipped_eq (b : Brush) (grid : UInt32) : b.clipped grid = b.onGrid grid := by
  rw [clipped, clip_saturated, clip_saturated, onGrid]

theorem footprint?_eq (b : Brush) (grid : UInt32) :
    b.footprint? grid = some (b.footprint grid) := by
  rw [footprint?, validate?_eq, footprint, clipped_eq]
  cases b.validate with
  | error e => rfl
  | ok _ =>
      change ite _ _ _ = some (ite _ _ _)
      split <;> rfl

theorem bounds_of_mem_onGrid (h : (x, y) ∈ (b.onGrid grid).cells) :
    (x < grid.toNat ∧ y < grid.toNat) ∧
      (b.left ≤ x ∧ x < b.left + b.size.toNat) ∧ b.top ≤ y ∧ y < b.top + b.size.toNat := by
  rw [Rect.mem_cells, onGrid] at h
  dsimp only at h
  have hx0 := toNat_clip grid b.left
  have hy0 := toNat_clip grid b.top
  have hx1 := toNat_clip grid (b.left + b.size.toNat)
  have hy1 := toNat_clip grid (b.top + b.size.toNat)
  omega

theorem density_of_validate (h : b.validate = .ok ()) :
    b.density.size = b.size.toNat * b.size.toNat := by
  rw [validate] at h
  split at h
  · contradiction
  · split at h
    · contradiction
    · split at h
      · contradiction
      · rename_i hsize
        exact not_not.mp hsize

theorem footprint_eq_ok {r : Rect} (h : b.footprint grid = .ok r) :
    b.validate = .ok () ∧ r = b.onGrid grid := by
  rw [footprint] at h
  split at h
  · contradiction
  · rename_i hvalid
    split at h
    · contradiction
    · exact ⟨hvalid, (Except.ok.inj h).symm⟩

theorem index_lt (hx : b.left ≤ x ∧ x < b.left + b.size.toNat)
    (hy : b.top ≤ y ∧ y < b.top + b.size.toNat) :
    b.index x y < b.size.toNat * b.size.toNat :=
  Grid.index_lt (x := (x - b.left).toNat) (y := (y - b.top).toNat) (by omega) (by omega)

theorem index?_eq (hx : b.left ≤ x ∧ x < b.left + b.size.toNat)
    (hy : b.top ≤ y ∧ y < b.top + b.size.toNat) : b.index? x y = some (b.index x y) := by
  have hsize := b.size.toNat_lt
  have hright : 0 ≤ (x : Int) - b.left ∧ (x : Int) - b.left < 2 ^ 63 := by omega
  have hdown : 0 ≤ (y : Int) - b.top ∧ (y : Int) - b.top < 2 ^ 63 := by omega
  have hindex : b.index x y < 2 ^ 64 := (index_lt hx hy).trans (Word.mul_self_lt b.size)
  have hrow : (y - b.top).toNat * b.size.toNat < 2 ^ 64 := by
    rw [index] at hindex
    omega
  rw [index?, Word.signed?_eq hdown, Word.signed?_eq hright]
  change (Word.unsigned? 64 (Word.reread (y - b.top) * _)).bind _ = _
  rw [Word.reread_eq hdown, Word.unsigned?_eq hrow, Option.bind_some, Word.reread_eq hright]
  exact Word.unsigned?_eq hindex

theorem paint?_ofGrid {g : Grid α} (hgrid : g.size = grid)
    {rule : Grid α → Nat → Nat → Float32 → Grid α}
    {rule? : Raster α → Nat → Nat → Float32 → Option (Raster α)}
    (hsize : ∀ g x y d, (rule g x y d).size = g.size)
    (hrule : ∀ g x y d, g.size = grid → x < grid.toNat → y < grid.toNat →
      rule? (.ofGrid g) x y d = some (.ofGrid (rule g x y d))) :
    b.paint? grid rule? (.ofGrid g) =
      some ((b.footprint grid).map fun r => (r, .ofGrid (b.paint r rule g))) := by
  rw [paint?, footprint?_eq]
  cases hfoot : b.footprint grid with
  | error e => rfl
  | ok r =>
      obtain ⟨hvalid, rfl⟩ := footprint_eq_ok hfoot
      have hpaint : (b.onGrid grid).cells.foldlM (b.paintCell? rule?) (.ofGrid g) =
          some (.ofGrid (b.paint (b.onGrid grid) rule g)) := by
        refine foldlM_eq_some Raster.ofGrid (P := fun g => g.size = grid) ?_ hgrid
        rintro g ⟨x, y⟩ hmem hg
        -- The cell is on the grid, and since the brush was not refused, it has a density.
        obtain ⟨⟨hx, hy⟩, hright, hdown⟩ := bounds_of_mem_onGrid hmem
        have hplace : b.index x y < b.density.size :=
          density_of_validate hvalid ▸ index_lt hright hdown
        have hdensity := Array.getElem?_eq_getElem hplace
        have hcell : b.paintCell? rule? (.ofGrid g) (x, y) =
            rule? (.ofGrid g) x y (b.strength * b.density[b.index x y]) := by
          simp [paintCell?, index?_eq hright hdown, hdensity]
        rw [hcell, weight?, hdensity]
        exact ⟨hrule g x y _ hg hx hy, (hsize g x y _).trans hg⟩
      change Option.bind (List.foldlM _ _ _) _ = _
      rw [hpaint]
      rfl

end Brush

namespace HeightMap

/-- The columns or rows around one of them that smoothing looks at. -/
def span? (size : UInt32) (v : Nat) : Option (List Nat) := do
  let stop ← Word.unsigned? 32 (v + smoothWindow)
  return List.range' (v - smoothWindow) (min stop size.toNat - (v - smoothWindow))

/-- The cells around a cell that smoothing looks at. -/
def around? (size : UInt32) (x y : Nat) : Option (List (Nat × Nat)) := do
  let columns ← span? size x
  let rows ← span? size y
  return rows.flatMap fun v => columns.map fun u => (u, v)

def weigh? (r : Raster Float32) (x y : Nat) (s : Float32 × Float32) (p : Nat × Nat) :
    Option (Float32 × Float32) := do
  let h ← r.read? p.1 p.2
  return (s.1 + smoothWeight x y p, s.2 + h * smoothWeight x y p)

def average? (r : Raster Float32) (x y : Nat) : Option (Option Float32) := do
  let cells ← around? r.size x y
  let sums ← cells.foldlM (weigh? r x y) (0, 0)
  return if 0 < sums.1 then some (sums.2 / sums.1) else none

def ownRule? (rule : Float32 → Float32 → Nat → Nat → Float32) (r : Raster Float32) (x y : Nat)
    (d : Float32) : Option (Raster Float32) :=
  r.change? x y fun h => confine (rule h d x y)

def smoothRule? (r : Raster Float32) (x y : Nat) (d : Float32) : Option (Raster Float32) := do
  match ← average? r x y with
  | none => return r
  | some a => r.change? x y fun h => confine (Single.interpolate h a d)

variable {g : Grid Float32} {size : UInt32} {x y : Nat}

theorem span?_eq {v : Nat} (hv : v < 2 ^ 24) :
    span? size v = some (List.range' (v - smoothWindow)
      (min (v + smoothWindow) size.toNat - (v - smoothWindow))) := by
  have hstop : v + smoothWindow < 2 ^ 32 := by
    rw [smoothWindow]
    omega
  rw [span?, Word.unsigned?_eq hstop]
  rfl

theorem around?_eq (hx : x < 2 ^ 24) (hy : y < 2 ^ 24) :
    around? size x y = some (around size x y) := by
  rw [around?, span?_eq hx, span?_eq hy]
  rfl

theorem lt_of_mem_around {p : Nat × Nat} (h : p ∈ around size x y) :
    p.1 < size.toNat ∧ p.2 < size.toNat := by
  obtain ⟨v, hv, hp⟩ := List.mem_flatMap.mp h
  obtain ⟨u, hu, rfl⟩ := List.mem_map.mp hp
  rw [List.mem_range'_1] at hu hv
  dsimp only
  omega

theorem average?_ofGrid (hx : x < 2 ^ 24) (hy : y < 2 ^ 24) :
    average? (.ofGrid g) x y = some (average g x y) := by
  have hsums : (around g.size x y).foldlM (weigh? (.ofGrid g) x y) (0, 0) =
      some ((around g.size x y).foldl (weigh g x y) (0, 0)) := by
    refine foldlM_eq_some id (P := fun _ => True) ?_ trivial
    intro s p hp _
    obtain ⟨hcolumn, hrow⟩ := lt_of_mem_around hp
    obtain ⟨h, hh⟩ := Option.isSome_iff_exists.mp (Grid.get?_isSome.mpr ⟨hcolumn, hrow⟩)
    rw [weigh?, Raster.read?_ofGrid hcolumn hrow, weigh, hh]
    exact ⟨rfl, trivial⟩
  rw [average?]
  change (around? g.size x y).bind _ = _
  rw [around?_eq hx hy, Option.bind_some, hsums, average_eq]
  rfl

/-- The checked rules by which ground is painted, beside the plain ones. -/
inductive CheckedRule : (Raster Float32 → Nat → Nat → Float32 → Option (Raster Float32)) →
    (Grid Float32 → Nat → Nat → Float32 → Grid Float32) → Prop where
  | own (rule : Float32 → Float32 → Nat → Nat → Float32) :
      CheckedRule (ownRule? rule) (ownRule rule)
  | smooth : CheckedRule smoothRule? smoothRule

variable {rule : Grid Float32 → Nat → Nat → Float32 → Grid Float32}
  {rule? : Raster Float32 → Nat → Nat → Float32 → Option (Raster Float32)}

theorem CheckedRule.ofGrid (h : CheckedRule rule? rule) (hsize : g.size.toNat ≤ 2 ^ 24)
    (hx : x < g.size.toNat) (hy : y < g.size.toNat) (d : Float32) :
    rule? (.ofGrid g) x y d = some (.ofGrid (rule g x y d)) := by
  cases h with
  | own rule => exact Raster.change?_ofGrid hx hy _
  | smooth =>
      rw [smoothRule?, average?_ofGrid (by omega) (by omega), smoothRule]
      cases average g x y with
      | none => rfl
      | some a => exact Raster.change?_ofGrid hx hy _

theorem CheckedRule.groundRule (h : CheckedRule rule? rule) : GroundRule rule := by
  cases h with
  | own rule => exact .own rule
  | smooth => exact .smooth

end HeightMap

end Terrarium
