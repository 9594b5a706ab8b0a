import Terrarium.Proofs.GroundCopy
import Terrarium.Proofs.Rasters

namespace Terrarium

namespace Fluid

/-- Pours into one cell what it lacks, as far as the budget goes. -/
def pourCell? (r : Reach) (state : Raster Cell × Float32) (p : Nat × Nat) :
    Option (Raster Cell × Float32) := do
  let (cells, budget) := state
  if budget ≤ 0 || !r.covers p.1 p.2 then return (cells, budget)
  else
    match ← cells.cell? p.1 p.2 with
    | none => return (cells, budget)
    | some c =>
        let deficit := c.deficit r.level
        if deficit ≤ 0 then return (cells, budget)
        else
          let added := Single.smaller deficit budget
          let cells ← cells.changeCell? p.1 p.2 fun c => { c with depth := c.depth + added }
          return (cells, budget - added)

def pour? (cells : Raster Cell) (r : Reach) : Option (Raster Cell) := do
  let (cells, _) ← r.rect.cells.foldlM (pourCell? r) (cells, r.capacity)
  return cells

/-- The ocean fills one cell if it lies on the border. -/
def floodCell? (ocean : Float32) (last : Nat) (cells : Raster Cell) (p : Nat × Nat) :
    Option (Raster Cell) :=
  if p.1 ≠ 0 && p.2 ≠ 0 && p.1 ≠ last && p.2 ≠ last then some cells
  else cells.changeCell? p.1 p.2 (flood ocean)

def floodBorder? (cells : Raster Cell) (ocean : Float32) : Option (Raster Cell) :=
  if 0 < cells.size.toNat then do
    let last ← Word.difference? cells.size.toNat 1
    (Rect.full cells.size).cells.foldlM (floodCell? ocean last) cells
  else some cells

def step? (cells : Raster Cell) (job : Job) : Option (Raster Cell) := do
  let cells ← job.reaches.foldlM pour? cells
  let cells ← floodBorder? cells job.ocean
  return cells.map settleCell

theorem pourCell?_ofGrid (r : Reach) (state : Grid Cell × Float32) (p : Nat × Nat) :
    pourCell? r (.ofGrid state.1, state.2) p =
      some (.ofGrid (pourCell r state p).1, (pourCell r state p).2) := by
  rw [pourCell?, pourCell]
  dsimp only
  split
  · rfl
  · rw [Raster.cell?_ofGrid]
    cases state.1.get? p.1 p.2 with
    | none => rfl
    | some c =>
        change ite _ _ _ = _
        dsimp only
        split
        · rfl
        · rw [Raster.changeCell?_ofGrid]
          rfl

theorem pour?_ofGrid (g : Grid Cell) (r : Reach) :
    pour? (.ofGrid g) r = some (.ofGrid (pour g r)) := by
  have hcells : r.rect.cells.foldlM (pourCell? r) (.ofGrid g, r.capacity) =
      some ((r.rect.cells.foldl (pourCell r) (g, r.capacity)).map .ofGrid id) :=
    foldlM_eq_some_of_forall (Prod.map Raster.ofGrid id) (pourCell?_ofGrid r) (g, r.capacity) _
  rw [pour?, hcells]
  rfl

theorem floodCell?_ofGrid {g : Grid Cell} {size : Nat} (hsize : 0 < size) (ocean : Float32)
    (p : Nat × Nat) :
    floodCell? ocean (size - 1) (.ofGrid g) p = some (.ofGrid (g.modify p.1 p.2
      fun c => if onBorder size p.1 p.2 then flood ocean c else c)) := by
  have hborder : (p.1 ≠ 0 && p.2 ≠ 0 && p.1 ≠ size - 1 && p.2 ≠ size - 1) =
      !onBorder size p.1 p.2 := by
    have hlast (v : Nat) : (v = size - 1) = (v + 1 = size) := propext (by omega)
    simp [onBorder, hlast, Bool.and_assoc]
  rw [floodCell?, hborder]
  cases onBorder size p.1 p.2 with
  | true => exact Raster.changeCell?_ofGrid g p.1 p.2 _
  | false => rw [Grid.modify_self p.1 p.2 fun _ => if_neg Bool.false_ne_true]; rfl

theorem floodBorder?_ofGrid (g : Grid Cell) (ocean : Float32) :
    floodBorder? (.ofGrid g) ocean = some (.ofGrid (floodBorder g ocean)) := by
  rw [floodBorder, ← Grid.foldl_modify_full, floodBorder?]
  change (if 0 < g.size.toNat then _ else _) = _
  split
  · rename_i hsize
    change (Word.difference? g.size.toNat 1).bind _ = _
    rw [Word.difference?, if_pos (show 1 ≤ g.size.toNat from hsize)]
    exact foldlM_eq_some_of_forall Raster.ofGrid (fun _ => floodCell?_ofGrid hsize ocean) g _
  · rename_i hsize
    have hcells : (Rect.full g.size).cells = [] := by
      refine List.eq_nil_iff_forall_not_mem.mpr ?_
      rintro ⟨x, y⟩ hmem
      rw [Rect.mem_cells] at hmem
      exact hsize (Nat.zero_lt_of_lt hmem.1.2)
    rw [hcells]
    rfl

theorem step?_ofGrid (g : Grid Cell) (job : Job) :
    step? (.ofGrid g) job = some (.ofGrid (step g job)) := by
  have hpour : job.reaches.foldlM pour? (.ofGrid g) = some (.ofGrid (job.reaches.foldl pour g)) :=
    foldlM_eq_some_of_forall Raster.ofGrid pour?_ofGrid g job.reaches
  rw [step?, hpour]
  change (floodBorder? _ _).bind _ = _
  rw [floodBorder?_ofGrid]
  rfl

end Fluid

/-- The fluid over the ground, with rasters for buffers. -/
structure RasterBasin where
  size : UInt32
  ocean : Float32
  sources : List ObjectId
  reaches : List Reach
  stale : Bool
  back : Raster Cell
  front : Raster Cell
  waiting : List Job
  started : Nat
  finished : Nat

/-- The ground, with a raster of heights. -/
structure RasterGround where
  heights : Raster Float32
  dirty : Rect

namespace RasterGround

def ofGround (m : HeightMap) : RasterGround := ⟨.ofGrid m.heights, m.dirty⟩

def new (size : UInt32) : RasterGround :=
  ⟨⟨size, Array.replicate (size.toNat * size.toNat) HeightMap.defaultHeight⟩, Rect.empty⟩

/-- The height of a cell, if it is on the grid. The program stops if such a cell is not there. -/
def heightAt? (m : RasterGround) (x y : Nat) : Option (Option Float32) :=
  if x < m.heights.size.toNat ∧ y < m.heights.size.toNat then (m.heights.read? x y).map some
  else some none

def announce (m : RasterGround) (r : Rect) : RasterGround :=
  { m with dirty := m.dirty.union (r.clipped m.heights.size) }

theorem heightAt?_ofGround (m : HeightMap) (x y : Nat) :
    (ofGround m).heightAt? x y = some (m.heightAt x y) := by
  rw [heightAt?]
  change (if x < m.heights.size.toNat ∧ y < m.heights.size.toNat then _ else _) = _
  split
  · rename_i hcell
    obtain ⟨h, hh⟩ := Option.isSome_iff_exists.mp (Grid.get?_isSome.mpr hcell)
    change ((Raster.ofGrid m.heights).read? x y).map some = _
    rw [Raster.read?_ofGrid hcell.1 hcell.2, HeightMap.heightAt, hh]
    rfl
  · rename_i hcell
    rw [HeightMap.heightAt, Grid.get?_eq_none hcell]

end RasterGround

namespace RasterBasin

/-- The rasters of a basin of a size. -/
def ofBasin (size : UInt32) (b : Basin) : RasterBasin where
  size := size
  ocean := b.ocean
  sources := b.sources
  reaches := b.reaches
  stale := b.stale
  back := .ofGrid b.back
  front := .ofGrid b.front
  waiting := b.waiting
  started := b.started
  finished := b.finished

def new (m : RasterGround) : RasterBasin where
  size := m.heights.size
  ocean := 0
  sources := []
  reaches := []
  stale := false
  back := m.heights.map fun h => ⟨h, 0⟩
  front := m.heights.map fun h => ⟨h, 0⟩
  waiting := []
  started := 0
  finished := 0

def start (b : RasterBasin) : RasterBasin :=
  { b with
    waiting := b.waiting ++ [⟨b.reaches, b.ocean⟩]
    started := b.started + 1 }

def publish? (b : RasterBasin) : Option RasterBasin :=
  match b.waiting with
  | [] => some b
  | job :: rest => do
      let after ← Fluid.step? b.back job
      return { b with back := after, front := after, waiting := rest }

def finish (b : RasterBasin) : RasterBasin :=
  if b.finished + b.waiting.length < b.started then { b with finished := b.finished + 1 } else b

def wait? (b : RasterBasin) : Option RasterBasin := do
  let after ← b.waiting.foldlM Fluid.step? b.back
  return { b with
    back := after
    front := if b.waiting.isEmpty then b.front else after
    waiting := []
    finished := b.started }

def addSource (b : RasterBasin) (id : ObjectId) : RasterBasin :=
  { b with
    sources := if id ∈ b.sources then b.sources else b.sources ++ [id]
    stale := true }

def removeSource (b : RasterBasin) (id : ObjectId) : RasterBasin :=
  { b with sources := b.sources.filter (· ≠ id), stale := true }

def reset? (b : RasterBasin) : Option RasterBasin := do
  let b ← b.wait?
  return { b with back := b.back.map fun c => { c with depth := 0 } }

/-- Copies the height of the ground into one cell. -/
def copyCell? (m : RasterGround) (cells : Raster Cell) (p : Nat × Nat) : Option (Raster Cell) := do
  match ← cells.cell? p.1 p.2, ← m.heightAt? p.1 p.2 with
  | some _, some h => cells.changeCell? p.1 p.2 fun c => { c with ground := h }
  | _, _ => return cells

/-- Copies the heights of the ground in a rectangle into the cells of the back buffer. -/
def groundUpdated? (b : RasterBasin) (r : Rect) (m : RasterGround) : Option RasterBasin :=
  let r := r.clipped (min b.size m.heights.size)
  if r.isEmpty then some b
  else do
    let b ← b.wait?
    let back ← r.cells.foldlM (copyCell? m) b.back
    return { b with back }

def mapSources? (b : RasterBasin) (source? : ObjectId → Option (Option Source)) :
    Option RasterBasin := do
  let sources ← b.sources.filterM fun id => (source? id).map Option.isSome
  let found ← sources.mapM source?
  return { b with
    sources
    reaches := (found.filterMap id).map fun s => Reach.ofSource s b.size
    stale := false }

variable {b : Basin} {size : UInt32}

theorem publish?_ofBasin (size : UInt32) (b : Basin) :
    (ofBasin size b).publish? = some (ofBasin size b.publish) := by
  rw [publish?, Basin.publish]
  change (match b.waiting with | [] => _ | job :: rest => _) = _
  cases b.waiting with
  | nil => rfl
  | cons job rest =>
      change (Fluid.step? (.ofGrid b.back) job).bind _ = _
      rw [Fluid.step?_ofGrid]
      rfl

theorem finish_ofBasin (size : UInt32) (b : Basin) :
    (ofBasin size b).finish = ofBasin size b.finish := by
  rw [finish, Basin.finish]
  change (if b.finished + b.waiting.length < b.started then _ else _) = _
  split <;> rfl

theorem wait?_ofBasin (size : UInt32) (b : Basin) :
    (ofBasin size b).wait? = some (ofBasin size b.wait) := by
  have hsteps : b.waiting.foldlM Fluid.step? (.ofGrid b.back) =
      some (.ofGrid (b.waiting.foldl Fluid.step b.back)) :=
    foldlM_eq_some_of_forall Raster.ofGrid Fluid.step?_ofGrid b.back b.waiting
  rw [wait?, Basin.wait]
  change (b.waiting.foldlM Fluid.step? (.ofGrid b.back)).bind _ = _
  rw [hsteps, ofBasin, ofBasin, apply_ite Raster.ofGrid]
  rfl

theorem reset?_ofBasin (size : UInt32) (b : Basin) :
    (ofBasin size b).reset? = some (ofBasin size b.reset) := by
  rw [reset?, wait?_ofBasin]
  rfl

theorem copyCell?_ofGrid (m : HeightMap) (g : Grid Cell) (p : Nat × Nat) :
    copyCell? (.ofGround m) (.ofGrid g) p = some (.ofGrid (Basin.copyCell m g p)) := by
  rw [copyCell?, Raster.cell?_ofGrid, RasterGround.heightAt?_ofGround, Basin.copyCell]
  cases m.heightAt p.1 p.2 with
  | none => cases g.get? p.1 p.2 <;> rfl
  | some h =>
      cases hcell : g.get? p.1 p.2 with
      | none =>
          dsimp only
          rw [Grid.modify_of_none hcell]
          rfl
      | some c => exact Raster.changeCell?_ofGrid g p.1 p.2 _

theorem filterM_some {α : Type} (p : α → Bool) (items : List α) :
    items.filterM (fun a => some (p a)) = some (items.filter p) := by
  suffices h : ∀ kept : List α, List.filterAuxM (fun a => some (p a)) items kept =
      some ((items.filter p).reverse ++ kept) by
    rw [List.filterM, h []]
    simp
  induction items with
  | nil => exact fun _ => rfl
  | cons a items ih =>
      intro kept
      rw [List.filterAuxM]
      change List.filterAuxM _ _ _ = _
      rw [ih]
      cases hp : p a <;> simp [hp]

theorem mapSources?_ofBasin (hsize : b.size = size) (source? : ObjectId → Option Source) :
    (ofBasin size b).mapSources? (fun id => some (source? id)) =
      some (ofBasin size (b.mapSources source?)) := by
  have hfound : ((b.sources.filter fun id => (source? id).isSome).map source?).filterMap id =
      b.sources.filterMap source? := by
    rw [List.filterMap_map, List.filterMap_filter]
    congr 1
    funext id
    cases h : source? id <;> simp [h]
  rw [mapSources?]
  change (b.sources.filterM fun id => some (source? id).isSome).bind _ = _
  rw [filterM_some, Option.bind_some]
  change Option.bind (List.mapM (fun id => pure (source? id)) _) _ = _
  rw [List.mapM_pure]
  change some _ = _
  rw [hfound, hsize.symm]
  rfl

theorem groundUpdated?_ofBasin (hsize : b.size = size) (r : Rect) (m : HeightMap) :
    (ofBasin size b).groundUpdated? r (.ofGround m) =
      some (ofBasin size (b.groundUpdated r m)) := by
  subst hsize
  rw [groundUpdated?, Basin.groundUpdated]
  change (if (r.clipped (min b.size m.size)).isEmpty then _ else _) = _
  split
  · rfl
  · have hcopy : (r.clipped (min b.size m.size)).cells.foldlM (copyCell? (.ofGround m))
        (.ofGrid b.wait.back) = some (.ofGrid
          ((r.clipped (min b.size m.size)).cells.foldl (Basin.copyCell m) b.wait.back)) :=
      foldlM_eq_some_of_forall Raster.ofGrid (copyCell?_ofGrid m) b.wait.back _
    rw [wait?_ofBasin]
    change (List.foldlM (copyCell? (.ofGround m)) (.ofGrid b.wait.back)
      (r.clipped (min b.size m.size)).cells).bind _ = _
    rw [hcopy]
    rfl

end RasterBasin

end Terrarium
