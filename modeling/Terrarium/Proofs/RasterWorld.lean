import Terrarium.Proofs.ChunkTable
import Terrarium.Proofs.RasterBasin
import Terrarium.Proofs.RasterPainting

/-!
Worlds in arrays. Here the heights of the ground, the cells of the fluid and the objects lie in
arrays, and every place, sum and difference is checked: whatever is asked of the world, it stops
where a word overflows or a place is outside of its array. On grids of up to `2 ^ 24` cells on each
axis no operation, no upkeep and no step of the fluid ever stops, and each does what it does to the
world. What is called by the name of an operation on worlds, with a question mark, is that operation
on arrays.
-/
namespace Terrarium

/-- Whether an operation picks the least unused identifier, whichever that is. -/
def Operation.picksId : Operation → Bool
  | .sourceCreate id .. => id.isNull
  | _ => false

namespace World

/-- Whether there is an unused identifier for what picks one. -/
def Move.Supplied (w : World) : Move → Prop
  | .execute op => op.picksId → w.objects.pool.regions ≠ []
  | _ => True

/-- Whether there is an unused identifier whenever one of some moves in turn picks one. -/
def Supplied (w : World) : List Move → Prop
  | [] => True
  | m :: moves => m.Supplied w ∧ (w.move m).Supplied moves

/-- A world of a size whose objects, unused identifiers and counts of steps are in order. -/
structure InOrder (size : UInt32) (w : World) : Prop where
  shared : w.Shared size
  tidy : w.objects.Tidy
  counted : w.basin.finished ≤ w.basin.started

variable {size : UInt32} {w : World}

theorem inOrder_new (size : UInt32) : (new size).InOrder size :=
  ⟨shared_new size, Table.Tidy.empty, Nat.le_refl 0⟩

theorem tidy_move (ht : w.objects.Tidy) (m : Move) : (w.move m).objects.Tidy := by
  apply moveAll_keeps_objects (P := Table.Tidy) _ _ _ ht [m]
  · intro t t' id made make ht hident hmade
    exact ht.createAt hmade
  · intro t id f ht hident
    exact ht.update id _
  · intro t id ht
    exact ht.kill id

theorem InOrder.move (hw : w.InOrder size) (m : Move) : (w.move m).InOrder size :=
  ⟨hw.shared.move m, tidy_move hw.tidy m, counted_move hw.counted m⟩

theorem InOrder.moveAll (hw : w.InOrder size) (moves : List Move) :
    (w.moveAll moves).InOrder size :=
  moveAll_keeps (P := fun v => v.InOrder size) (fun _ m hv => hv.move m) hw moves

theorem InOrder.met (hw : w.InOrder size) (op : Operation) : (w.met op).InOrder size := by
  rw [World.met]
  split
  · exact hw.move .wait
  · exact hw

end World

/-- Ground, fluid and objects in arrays. -/
structure RasterWorld where
  ground : RasterGround
  basin : RasterBasin
  objects : ChunkTable Entity

namespace RasterWorld

def new (size : UInt32) : RasterWorld := ⟨.new size, .new (.new size), .empty⟩

def source? (v : RasterWorld) (id : ObjectId) : Option (Option Source) :=
  (v.objects.get? id).map fun found => found.bind Entity.source?

def wait? (v : RasterWorld) : Option RasterWorld := do
  return { v with basin := ← v.basin.wait? }

def start (v : RasterWorld) : RasterWorld := { v with basin := v.basin.start }

/-- The basin when upkeep has told it what changed of the ground. -/
def grounded? (v : RasterWorld) : Option RasterBasin :=
  if v.ground.dirty.isEmpty then some v.basin
  else v.basin.groundUpdated? v.ground.dirty { v.ground with dirty := Rect.empty }

def upkeep? (v : RasterWorld) : Option RasterWorld := do
  let grounded ← v.grounded?
  let basin ← (if grounded.stale then grounded.mapSources? v.source? else some grounded)
  return { v with ground := { v.ground with dirty := Rect.empty }, basin }

def paintGround? (v : RasterWorld) (b : Brush)
    (rule? : Raster Float32 → Nat → Nat → Float32 → Option (Raster Float32)) :
    Option (Except Failure (Delta × RasterWorld)) := do
  match ← b.paint? v.ground.heights.size rule? v.ground.heights with
  | .error e => return .error e
  | .ok (r, heights) =>
      return .ok (.terrain r, { v with ground := { v.ground with heights }.announce r })

def paintRamp? (v : RasterWorld) (b : Brush) (start : Point) (startHeight : Float32) (stop : Point)
    (stopHeight : Float32) : Option (Except Failure (Delta × RasterWorld)) :=
  let span := stop - start
  let length := span.length
  if length < 1 then some (.error Objection.shortRamp.failure)
  else
    let direction := span.shrink length
    v.paintGround? b (HeightMap.ownRule? fun h d x y =>
      Single.interpolate h (World.rampHeight start startHeight stopHeight direction length x y) d)

/-- Paints fluid onto the back buffer, after the steps under way; no depth goes below zero. -/
def paintFluid? (v : RasterWorld) (b : Brush) : Option (Except Failure (Delta × RasterWorld)) := do
  let basin ← v.basin.wait?
  let painted ← b.paint? basin.size (fun cells x y d =>
    cells.changeCell? x y fun c => { c with depth := Single.larger (c.depth + d) 0 }) basin.back
  match painted with
  | .error e => return .error e
  | .ok (r, back) => return .ok (.fluid r, { v with basin := { basin with back } })

def createSource? (v : RasterWorld) (id : ObjectId) (pos : Point)
    (radius level capacity : Float32) : Option (Except Failure (Delta × RasterWorld)) :=
  match World.checkPlacement pos radius with
  | .error e => some (.error e)
  | .ok _ => do
      match ← v.objects.createAt? id fun id => .source ⟨id, pos, radius, level, capacity⟩ with
      | .error e => return .error (Objection.store e).failure
      | .ok (id, objects) =>
          return .ok (.created id, { v with objects, basin := v.basin.addSource id })

def updateSource? (v : RasterWorld) (id : ObjectId) (f : Source → Source) :
    Option (Except Failure (Delta × RasterWorld)) := do
  match ← v.source? id with
  | none => return .error (.noSuchObject id)
  | some _ =>
      let objects ← v.objects.update? id (Entity.mapSource f)
      return .ok (.updated id, { v with objects, basin := { v.basin with stale := true } })

def moveSource? (v : RasterWorld) (id : ObjectId) (pos : Point) :
    Option (Except Failure (Delta × RasterWorld)) :=
  match World.checkPlacement pos 0 with
  | .error e => some (.error e)
  | .ok _ => v.updateSource? id fun s => { s with pos }

def destroySource? (v : RasterWorld) (id : ObjectId) :
    Option (Except Failure (Delta × RasterWorld)) := do
  match ← v.source? id with
  | none => return .error (.noSuchObject id)
  | some _ =>
      let (_, objects) ← v.objects.kill? id
      return .ok (.destroyed id, { v with objects, basin := v.basin.removeSource id })

def perform? (v : RasterWorld) : Operation → Option (Except Failure (Delta × RasterWorld))
  | .terraformRaise b => v.paintGround? b (HeightMap.ownRule? fun h d _ _ => h + d)
  | .terraformLevel b reference =>
      v.paintGround? b (HeightMap.ownRule? fun h d _ _ => Single.interpolate h reference d)
  | .terraformSmooth b => v.paintGround? b HeightMap.smoothRule?
  | .terraformRamp b start startHeight stop stopHeight =>
      v.paintRamp? b start startHeight stop stopHeight
  | .fluidRaise b => v.paintFluid? b
  | .sourceCreate id pos radius level capacity => v.createSource? id pos radius level capacity
  | .sourceMove id pos => v.moveSource? id pos
  | .sourceSetLevel id level => v.updateSource? id fun s => { s with level }
  | .sourceSetCapacity id capacity => v.updateSource? id fun s => { s with capacity }
  | .sourceDestroy id => v.destroySource? id
  | .oceanSetLevel level =>
      some (.ok (.nothing, { v with basin := { v.basin with ocean := level } }))
  | .fluidReset => do return .ok (.nothing, { v with basin := ← v.basin.reset? })

/-- The world that an operation meets: one that works on the fluid has waited for it. -/
def met? (v : RasterWorld) (op : Operation) : Option RasterWorld :=
  if World.writesFluid op then v.wait? else some v

def execute? (v : RasterWorld) (op : Operation) : Option (Outcome × RasterWorld) := do
  let v ← v.met? op
  match ← v.perform? op with
  | .error e => return (.failure e, v)
  | .ok (delta, v) => return (.success delta, v)

def move? (v : RasterWorld) : World.Move → Option RasterWorld
  | .execute op => (v.execute? op).map (·.2)
  | .upkeep => v.upkeep?
  | .start => some v.start
  | .publish => do return { v with basin := ← v.basin.publish? }
  | .finish => some { v with basin := v.basin.finish }
  | .wait => v.wait?

def moveAll? (v : RasterWorld) (moves : List World.Move) : Option RasterWorld :=
  moves.foldlM move? v

/-- As many cells in each array as a size asks for. -/
structure Sized (size : UInt32) (v : RasterWorld) : Prop where
  ground : v.ground.heights.size = size ∧
    v.ground.heights.cells.size = size.toNat * size.toNat
  back : v.basin.back.size = size ∧ v.basin.back.cells.size = size.toNat * size.toNat
  front : v.basin.front.size = size ∧ v.basin.front.cells.size = size.toNat * size.toNat

/-- Whether arrays hold what a world of a size holds. -/
structure Stands (size : UInt32) (v : RasterWorld) (w : World) : Prop where
  ground : v.ground = .ofGround w.ground
  basin : v.basin = .ofBasin size w.basin
  objects : v.objects.Stands w.objects

/-- Whether a checked operation ends as the plain one, and in a world that stands for the other. -/
inductive Answers (size : UInt32) : Except Failure (Delta × World) →
    Option (Except Failure (Delta × RasterWorld)) → Prop where
  | failed (e : Failure) : Answers size (.error e) (some (.error e))
  | applied {d : Delta} {v : RasterWorld} {w : World} (h : v.Stands size w) :
      Answers size (.ok (d, w)) (some (.ok (d, v)))

theorem stands_new (size : UInt32) : (new size).Stands size (.new size) :=
  ⟨rfl, rfl, ChunkTable.stands_empty⟩

variable {size : UInt32} {v : RasterWorld} {w : World}

namespace Stands

theorem withBasin (h : v.Stands size w) {r : RasterBasin} {b : Basin}
    (hr : r = .ofBasin size b) : { v with basin := r }.Stands size { w with basin := b } :=
  ⟨h.ground, hr, h.objects⟩

theorem source?_eq (h : v.Stands size w) : v.source? = fun id => some (w.source? id) := by
  funext id
  rw [source?, h.objects.found]
  rfl

theorem exists_wait? (h : v.Stands size w) : ∃ v', v.wait? = some v' ∧ v'.Stands size w.wait := by
  refine ⟨_, ?_, h.withBasin rfl⟩
  rw [wait?, h.basin, RasterBasin.wait?_ofBasin]
  rfl

theorem sized (h : v.Stands size w) (hw : w.Shared size) : v.Sized size := by
  constructor
  · rw [h.ground, ← hw.ground]
    exact ⟨rfl, w.ground.heights.size_cells⟩
  · rw [h.basin, ← hw.back]
    exact ⟨rfl, w.basin.back.size_cells⟩
  · rw [h.basin, ← hw.front]
    exact ⟨rfl, w.basin.front.size_cells⟩

theorem paintGround? (h : v.Stands size w) (hw : w.Shared size) (hsize : size.toNat ≤ 2 ^ 24)
    (b : Brush) {rule : Grid Float32 → Nat → Nat → Float32 → Grid Float32}
    {rule? : Raster Float32 → Nat → Nat → Float32 → Option (Raster Float32)}
    (hrule : HeightMap.CheckedRule rule? rule) :
    Answers size (w.paintGround b rule) (v.paintGround? b rule?) := by
  have hpaint : b.paint? w.ground.size rule? (.ofGrid w.ground.heights) =
      some ((b.footprint w.ground.size).map fun r =>
        (r, .ofGrid (b.paint r rule w.ground.heights))) := by
    refine Brush.paint?_ofGrid rfl hrule.groundRule.size_eq ?_
    intro g x y d hg hx hy
    have hsame : g.size = size := hg.trans hw.ground
    exact hrule.ofGrid (hsame ▸ hsize) (hg ▸ hx) (hg ▸ hy) d
  rw [RasterWorld.paintGround?, h.ground]
  change Answers _ _ (Option.bind (b.paint? w.ground.size rule? (.ofGrid w.ground.heights)) _)
  rw [hpaint, World.paintGround, HeightMap.painted]
  cases hfoot : b.footprint w.ground.size with
  | error e => exact .failed e
  | ok r => exact .applied ⟨rfl, h.basin, h.objects⟩

theorem paintRamp? (h : v.Stands size w) (hw : w.Shared size) (hsize : size.toNat ≤ 2 ^ 24)
    (b : Brush) (start : Point) (startHeight : Float32) (stop : Point) (stopHeight : Float32) :
    Answers size (w.paintRamp b start startHeight stop stopHeight)
      (v.paintRamp? b start startHeight stop stopHeight) := by
  rw [World.paintRamp, RasterWorld.paintRamp?]
  dsimp only
  split
  · exact .failed _
  · exact h.paintGround? hw hsize b (.own _)

theorem paintFluid? (h : v.Stands size w) (hw : w.Shared size) (b : Brush) :
    Answers size (w.paintFluid b) (v.paintFluid? b) := by
  have hback : w.basin.wait.back.size = size := w.basin.size_wait.trans hw.back
  have hpaint : b.paint? size (fun cells x y d =>
      cells.changeCell? x y fun c => { c with depth := Single.larger (c.depth + d) 0 })
      (.ofGrid w.basin.wait.back) = some ((b.footprint size).map fun r =>
        (r, .ofGrid (b.paint r Fluid.raiseRule w.basin.wait.back))) :=
    Brush.paint?_ofGrid hback (fun g x y _ => g.size_modify x y _) fun g x y _ _ _ _ =>
      Raster.changeCell?_ofGrid g x y _
  rw [RasterWorld.paintFluid?, h.basin, RasterBasin.wait?_ofBasin]
  change Answers _ _ (Option.bind (b.paint? size _ (.ofGrid w.basin.wait.back)) _)
  rw [hpaint, World.paintFluid, show w.basin.size = size from hw.back]
  cases b.footprint size with
  | error e => exact .failed e
  | ok r => exact .applied ⟨h.ground, rfl, h.objects⟩

theorem createSource? (h : v.Stands size w) (ht : w.objects.Tidy) {id : ObjectId}
    (hid : id.isNull → w.objects.pool.regions ≠ []) (pos : Point)
    (radius level capacity : Float32) :
    Answers size (w.createSource id pos radius level capacity)
      (v.createSource? id pos radius level capacity) := by
  rw [World.createSource, RasterWorld.createSource?]
  cases World.checkPlacement pos radius with
  | error e => exact .failed e
  | ok _ =>
      dsimp only
      cases hmade : w.objects.createAt id fun id =>
          Entity.source ⟨id, pos, radius, level, capacity⟩ with
      | error e =>
          rw [h.objects.createAt?_error ht hmade (Table.ne_exhausted hid hmade)]
          exact .failed _
      | ok made =>
          obtain ⟨id, objects⟩ := made
          obtain ⟨k, hk, hstands⟩ := h.objects.exists_createAt? ht hmade
          rw [hk, h.basin]
          exact .applied ⟨h.ground, rfl, hstands⟩

theorem updateSource? (h : v.Stands size w) (ht : w.objects.Tidy) (id : ObjectId)
    (f : Source → Source) : Answers size (w.updateSource id f) (v.updateSource? id f) := by
  rw [World.updateSource, RasterWorld.updateSource?, h.source?_eq]
  change Answers _ _ (match w.source? id with | none => _ | some _ => _)
  cases w.source? id with
  | none => exact .failed _
  | some s =>
      obtain ⟨k, hk, hstands⟩ := h.objects.exists_update? ht id (Entity.mapSource f)
      dsimp only
      rw [hk, h.basin]
      exact .applied ⟨h.ground, rfl, hstands⟩

theorem destroySource? (h : v.Stands size w) (ht : w.objects.Tidy) (id : ObjectId) :
    Answers size (w.destroySource id) (v.destroySource? id) := by
  rw [World.destroySource, RasterWorld.destroySource?, h.source?_eq]
  change Answers _ _ (match w.source? id with | none => _ | some _ => _)
  cases w.source? id with
  | none => exact .failed _
  | some s =>
      obtain ⟨k, hk, hstands⟩ := h.objects.exists_kill? ht id
      dsimp only
      rw [hk, h.basin]
      exact .applied ⟨h.ground, rfl, hstands⟩

theorem moveSource? (h : v.Stands size w) (ht : w.objects.Tidy) (id : ObjectId) (pos : Point) :
    Answers size (w.moveSource id pos) (v.moveSource? id pos) := by
  rw [World.moveSource, RasterWorld.moveSource?]
  cases World.checkPlacement pos 0 with
  | error e => exact .failed e
  | ok _ => exact h.updateSource? ht id _

theorem perform? (h : v.Stands size w) (hw : w.InOrder size) (hsize : size.toNat ≤ 2 ^ 24)
    (op : Operation) (hids : op.picksId → w.objects.pool.regions ≠ []) :
    Answers size (w.apply op) (v.perform? op) := by
  cases op with
  | terraformRaise b => exact h.paintGround? hw.shared hsize b (.own _)
  | terraformLevel b reference => exact h.paintGround? hw.shared hsize b (.own _)
  | terraformSmooth b => exact h.paintGround? hw.shared hsize b .smooth
  | terraformRamp b start startHeight stop stopHeight =>
      exact h.paintRamp? hw.shared hsize b start startHeight stop stopHeight
  | fluidRaise b => exact h.paintFluid? hw.shared b
  | sourceCreate id pos radius level capacity =>
      exact h.createSource? hw.tidy hids pos radius level capacity
  | sourceMove id pos => exact h.moveSource? hw.tidy id pos
  | sourceSetLevel id level => exact h.updateSource? hw.tidy id _
  | sourceSetCapacity id capacity => exact h.updateSource? hw.tidy id _
  | sourceDestroy id => exact h.destroySource? hw.tidy id
  | oceanSetLevel level =>
      rw [RasterWorld.perform?, h.basin]
      exact .applied ⟨h.ground, rfl, h.objects⟩
  | fluidReset =>
      rw [RasterWorld.perform?, h.basin, RasterBasin.reset?_ofBasin]
      exact .applied ⟨h.ground, rfl, h.objects⟩

theorem exists_met? (h : v.Stands size w) (op : Operation) :
    ∃ v', v.met? op = some v' ∧ v'.Stands size (w.met op) := by
  rw [met?, World.met]
  split
  · exact h.exists_wait?
  · exact ⟨v, rfl, h⟩

theorem exists_execute? (h : v.Stands size w) (hw : w.InOrder size) (hsize : size.toNat ≤ 2 ^ 24)
    {op : Operation} (hids : op.picksId → w.objects.pool.regions ≠ []) :
    ∃ v', v.execute? op = some ((w.execute op).1, v') ∧ v'.Stands size (w.execute op).2 := by
  obtain ⟨met, hmet, hstands⟩ := h.exists_met? op
  have hpool : (w.met op).objects = w.objects := by
    rw [World.met]
    split <;> rfl
  have hanswer := hstands.perform? (hw.met op) hsize op (hpool ▸ hids)
  rw [execute?, hmet, World.execute_eq]
  change ∃ v', (met.perform? op).bind _ = _ ∧ _
  generalize (w.met op).apply op = plain at hanswer ⊢
  generalize met.perform? op = checked at hanswer ⊢
  cases hanswer with
  | failed e => exact ⟨met, rfl, hstands⟩
  | applied hnext => exact ⟨_, rfl, hnext⟩

theorem grounded?_eq (h : v.Stands size w) (hw : w.Shared size) :
    v.grounded? = some (.ofBasin size w.grounded) := by
  rw [grounded?, h.basin, h.ground, World.grounded]
  change (if w.ground.dirty.isEmpty then _ else _) = _
  split
  · rfl
  · exact RasterBasin.groundUpdated?_ofBasin hw.back w.ground.dirty w.ground.takeDirty.2

theorem exists_upkeep? (h : v.Stands size w) (hw : w.Shared size) :
    ∃ v', v.upkeep? = some v' ∧ v'.Stands size w.upkeep := by
  have hsize : w.grounded.size = size := w.size_grounded.trans hw.back
  have hbasin : (if w.grounded.stale then
      (RasterBasin.ofBasin size w.grounded).mapSources? fun id => some (w.source? id)
      else some (.ofBasin size w.grounded)) = some (.ofBasin size w.upkeep.basin) := by
    rw [World.upkeep_eq]
    dsimp only
    split
    · exact RasterBasin.mapSources?_ofBasin hsize w.source?
    · rfl
  refine ⟨⟨.ofGround w.upkeep.ground, .ofBasin size w.upkeep.basin, v.objects⟩, ?_, rfl, rfl,
    h.objects⟩
  rw [upkeep?, h.grounded?_eq hw, h.source?_eq, h.ground]
  change Option.bind (if w.grounded.stale then _ else _) _ = _
  rw [hbasin]
  rfl

theorem start (h : v.Stands size w) : v.start.Stands size (w.move .start) :=
  h.withBasin (by rw [h.basin]; rfl)

theorem exists_move? (h : v.Stands size w) (hw : w.InOrder size) (hsize : size.toNat ≤ 2 ^ 24)
    {m : World.Move} (hids : m.Supplied w) :
    ∃ v', v.move? m = some v' ∧ v'.Stands size (w.move m) := by
  cases m with
  | execute op =>
      obtain ⟨v', hv', hstands⟩ := h.exists_execute? hw hsize hids
      exact ⟨v', by rw [move?, hv', Option.map_some], hstands⟩
  | upkeep => exact h.exists_upkeep? hw.shared
  | start => exact ⟨_, rfl, h.start⟩
  | publish =>
      refine ⟨_, ?_, h.withBasin rfl⟩
      rw [move?, h.basin, RasterBasin.publish?_ofBasin]
      rfl
  | finish =>
      refine ⟨_, rfl, h.withBasin ?_⟩
      rw [h.basin]
      exact RasterBasin.finish_ofBasin size w.basin
  | wait => exact h.exists_wait?

theorem exists_moveAll? (h : v.Stands size w) (hw : w.InOrder size) (hsize : size.toNat ≤ 2 ^ 24)
    {moves : List World.Move} (hids : w.Supplied moves) :
    ∃ v', v.moveAll? moves = some v' ∧ v'.Stands size (w.moveAll moves) := by
  induction moves generalizing v w with
  | nil => exact ⟨v, rfl, h⟩
  | cons m moves ih =>
      obtain ⟨next, hnext, hstands⟩ := h.exists_move? hw hsize hids.1
      obtain ⟨v', hv', hlast⟩ := ih hstands (hw.move m) hids.2
      refine ⟨v', ?_, hlast⟩
      rw [moveAll?, List.foldlM_cons, hnext]
      exact hv'

end Stands

/-- On up to `2 ^ 24` cells on each axis, whatever happens to a new world goes through, as long as
there is an unused identifier when one is picked, and leaves as many cells in each array as there
were. Then any operation goes through as well, with the outcome that it has on the world, and so do
the upkeep and the step of the fluid after it. Steps are counted exactly: as many as were started,
of which no more are finished, so words of 64 bits hold the counts of fewer than `2 ^ 64` steps. -/
theorem moveAll?_completes {size : UInt32} (hsize : size.toNat ≤ 2 ^ 24) {moves : List World.Move}
    (hids : (World.new size).Supplied moves) :
    let w := (World.new size).moveAll moves
    ∃ v, (new size).moveAll? moves = some v ∧ v.Stands size w ∧ v.Sized size ∧
      v.basin.started = moves.countP World.Move.isStart ∧ v.basin.finished ≤ v.basin.started ∧
      ∀ op : Operation, (op.picksId → w.objects.pool.regions ≠ []) →
        ∃ done kept stepped,
          v.execute? op = some ((w.execute op).1, done) ∧ done.Sized size ∧
          done.upkeep? = some kept ∧ kept.Sized size ∧
          kept.start.wait? = some stepped ∧ stepped.Sized size ∧
          stepped.Stands size (w.moveAll [.execute op, .upkeep, .start, .wait]) := by
  intro w
  have hw : w.InOrder size := (World.inOrder_new size).moveAll moves
  obtain ⟨v, hv, hstands⟩ := (stands_new size).exists_moveAll? (World.inOrder_new size) hsize hids
  refine ⟨v, hv, hstands, hstands.sized hw.shared, ?_, ?_, ?_⟩
  · rw [hstands.basin]
    exact ((World.new size).started_moveAll moves).trans (Nat.zero_add _)
  · rw [hstands.basin]
    exact hw.counted
  · intro op hpick
    obtain ⟨done, hdone, hexecuted⟩ := hstands.exists_execute? hw hsize hpick
    have hw₁ : (w.execute op).2.InOrder size := hw.move (.execute op)
    obtain ⟨kept, hkept, hupkept⟩ := hexecuted.exists_upkeep? hw₁.shared
    have hw₂ : (w.execute op).2.upkeep.InOrder size := hw₁.move .upkeep
    have hstarted := hupkept.start
    obtain ⟨stepped, hstepped, hlast⟩ := hstarted.exists_wait?
    exact ⟨done, kept, stepped, hdone, hexecuted.sized hw₁.shared, hkept, hupkept.sized hw₂.shared,
      hstepped, hlast.sized ((hw₂.move .start).move .wait).shared, hlast⟩

theorem moveAll?_completes_over_edge :
    let moves := [.execute (.sourceCreate .null ⟨1, 1⟩ 2 30 5), .upkeep, .start]
    ∃ v done, (new 4).moveAll? moves = some v ∧
      v.execute? (.terraformSmooth (Brush.uniform 4 4 4 1)) =
        some (.success (.terrain ⟨2, 2, 4, 4⟩), done) ∧
      done.Sized 4 := by
  intro moves
  have hids : (World.new 4).Supplied moves :=
    ⟨fun _ => List.cons_ne_nil _ _, trivial, trivial, trivial⟩
  obtain ⟨v, hv, -, -, -, -, hop⟩ := moveAll?_completes (by decide +kernel) hids
  obtain ⟨done, -, -, hdone, hsized, -⟩ :=
    hop (.terraformSmooth (Brush.uniform 4 4 4 1)) fun hpick =>
      absurd hpick Bool.false_ne_true
  refine ⟨v, done, hv, hdone.trans ?_, hsized⟩
  have houtcome : (((World.new 4).moveAll moves).execute
      (.terraformSmooth (Brush.uniform 4 4 4 1))).1 = .success (.terrain ⟨2, 2, 4, 4⟩) := by
    decide +kernel
  rw [houtcome]

end RasterWorld

end Terrarium
