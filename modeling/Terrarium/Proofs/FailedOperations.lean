import Terrarium.Proofs.GridSize
import Terrarium.Proofs.TableCalls
import Terrarium.Proofs.WorldChange

/-!
Operations write by write. Here an operation is a sequence of checks and single writes to the world,
and one that fails keeps every write made until then. Written out in this way an operation does what
`World.execute` says, and one that fails has written nothing, but for letting the fluid steps under
way come to their end.
-/
namespace Terrarium

/-- Work on a world, write by write. It may stop with a failure, in the world written so far. -/
abbrev Work := EStateM Failure World

namespace Work

variable {β γ : Type}

/-- Stops with the failure of a check. -/
def demand (check : Except Failure β) : Work β :=
  match check with
  | .ok b => pure b
  | .error e => throw e

def writeObjects (f : Table Entity → Table Entity) : Work Unit :=
  modify fun w => { w with objects := f w.objects }

def writeBasin (f : Basin → Basin) : Work Unit := modify fun w => { w with basin := f w.basin }

/-- Visits the cells of a brush one by one, and gives the rectangle that they lie in. -/
def eachCell (b : Brush) (size : UInt32) (paint : Nat → Nat → Float32 → World → World) :
    Work Rect := do
  let r ← demand (b.footprint size)
  r.cells.forM fun p =>
    match b.weight? p.1 p.2 with
    | some d => modify (paint p.1 p.2 d)
    | none => pure ()
  return r

/-- Paints the ground cell by cell, then announces the rectangle. -/
def paintGround (b : Brush) (rule : Grid Float32 → Nat → Nat → Float32 → Grid Float32) :
    Work Delta := do
  let w ← get
  let r ← eachCell b w.ground.size fun x y d w =>
    { w with ground := { w.ground with heights := rule w.ground.heights x y d } }
  modify fun w => { w with ground := w.ground.announce r }
  return .terrain r

/-- Checks the ends of a ramp, then paints it. -/
def paintRamp (b : Brush) (start : Point) (startHeight : Float32) (stop : Point)
    (stopHeight : Float32) : Work Delta := do
  let span := stop - start
  let length := span.length
  if length < 1 then throw Objection.shortRamp.failure
  let direction := span.shrink length
  paintGround b (HeightMap.ownRule fun h d x y =>
    Single.interpolate h (World.rampHeight start startHeight stopHeight direction length x y) d)

/-- Waits for the fluid steps under way, then paints the back buffer cell by cell. -/
def paintFluid (b : Brush) : Work Delta := do
  let w ← get
  writeBasin Basin.wait
  let r ← eachCell b w.basin.size fun x y d w =>
    { w with basin := { w.basin with back := Fluid.raiseRule w.basin.back x y d } }
  return .fluid r

/-- Takes the least identifier out of the pool. -/
def takeLeast : Work ObjectId := do
  let w ← get
  match w.objects.pool.takeLeast? with
  | none => throw (Objection.store .exhausted).failure
  | some (n, pool) =>
      writeObjects fun t => { t with pool }
      return ⟨UInt64.ofNat n⟩

/-- Takes a chosen identifier out of the pool. -/
def take (id : ObjectId) : Work Unit := do
  let w ← get
  match w.objects.pool.take? id.word.toNat with
  | none => throw (Objection.store (.idInUse id)).failure
  | some pool => writeObjects fun t => { t with pool }

/-- Counts a new object, sets its chunk aside and fills its slot. -/
def fill (id : ObjectId) (e : Entity) : Work Unit := do
  let w ← get
  if (w.objects.get? id).isNone then writeObjects fun t => { t with live := t.live + 1 }
  writeObjects fun t =>
    { t with
      chunks := if Table.chunkOf id ∈ t.chunks then t.chunks else Table.chunkOf id :: t.chunks }
  writeObjects fun t => { t with slots := Table.insertSlot id e t.slots }

/-- Makes an object under a chosen identifier, or under the least one for the null identifier. -/
def emplace (id : ObjectId) (make : ObjectId → Entity) : Work ObjectId := do
  if id.isNull then
    let made ← takeLeast
    fill made (make made)
    return made
  else
    take id
    fill id (make id)
    return id

/-- Puts a source at the end of the list, unless it is there, and marks the sources as stale. -/
def register (id : ObjectId) : Work Unit := do
  writeBasin fun b =>
    { b with sources := if id ∈ b.sources then b.sources else b.sources ++ [id] }
  writeBasin fun b => { b with stale := true }

/-- Checks a place, makes a source there and registers it. -/
def createSource (id : ObjectId) (pos : Point) (radius level capacity : Float32) : Work Delta := do
  demand (World.checkPlacement pos radius)
  let made ← emplace id fun id => .source ⟨id, pos, radius, level, capacity⟩
  register made
  return .created made

/-- Looks a source up, changes it and marks the sources as stale. -/
def updateSource (id : ObjectId) (f : Source → Source) : Work Delta := do
  let w ← get
  if (w.source? id).isNone then throw (.noSuchObject id)
  writeObjects fun t => t.update id (Entity.mapSource f)
  writeBasin Basin.invalidate
  return .updated id

/-- Checks a place, then moves a source there. -/
def moveSource (id : ObjectId) (pos : Point) : Work Delta := do
  demand (World.checkPlacement pos 0)
  updateSource id fun s => { s with pos }

/-- Takes a source off the list and marks the sources as stale. -/
def forget (id : ObjectId) : Work Unit := do
  writeBasin fun b => { b with sources := b.sources.filter (· ≠ id) }
  writeBasin fun b => { b with stale := true }

/-- Clears the slot of an object, counts it out and gives its identifier back. -/
def kill (id : ObjectId) : Work Bool := do
  let w ← get
  if (w.objects.get? id).isNone then return false
  writeObjects fun t => { t with slots := Table.eraseSlot id t.slots }
  writeObjects fun t => { t with live := t.live - 1 }
  writeObjects fun t => t.giveId id
  return true

/-- Looks a source up, forgets it and kills the object. -/
def destroySource (id : ObjectId) : Work Delta := do
  let w ← get
  if (w.source? id).isNone then throw (.noSuchObject id)
  forget id
  let _ ← kill id
  return .destroyed id

def perform : Operation → Work Delta
  | .terraformRaise b => paintGround b (HeightMap.ownRule fun h d _ _ => h + d)
  | .terraformLevel b reference =>
      paintGround b (HeightMap.ownRule fun h d _ _ => Single.interpolate h reference d)
  | .terraformSmooth b => paintGround b HeightMap.smoothRule
  | .terraformRamp b start startHeight stop stopHeight =>
      paintRamp b start startHeight stop stopHeight
  | .fluidRaise b => paintFluid b
  | .sourceCreate id pos radius level capacity => createSource id pos radius level capacity
  | .sourceMove id pos => moveSource id pos
  | .sourceSetLevel id level => updateSource id fun s => { s with level }
  | .sourceSetCapacity id capacity => updateSource id fun s => { s with capacity }
  | .sourceDestroy id => destroySource id
  | .oceanSetLevel level => do
      writeBasin fun b => { b with ocean := level }
      return .nothing
  | .fluidReset => do
      writeBasin Basin.wait
      writeBasin fun b => { b with back := b.back.map fun c => { c with depth := 0 } }
      return .nothing

/-- What an operation makes of a world, as the ending of its work: a failure leaves the world as it
was. -/
def ending (w : World) : Except Failure (Delta × World) → EStateM.Result Failure World Delta
  | .ok (d, w') => .ok d w'
  | .error e => .error e w

theorem run_forM {f : β → Work Unit} {g : World → β → World}
    (hf : ∀ b w, (f b).run w = .ok () (g w b)) (bs : List β) (w : World) :
    (bs.forM f).run w = .ok () (bs.foldl g w) := by
  induction bs generalizing w with
  | nil => rfl
  | cons b bs ih =>
      have hcons : (b :: bs).forM f = f b >>= fun _ => bs.forM f := rfl
      rw [hcons, EStateM.run_bind, hf]
      exact ih (g w b)

/-- Visiting cells fails before the first of them or writes to one part of the world, as `put` puts
it in, what painting the part by itself makes of it. -/
theorem run_eachCell {α : Type} (put : Grid α → World) (paint : Nat → Nat → Float32 → World → World)
    {rule : Grid α → Nat → Nat → Float32 → Grid α}
    (hpaint : ∀ g x y d, paint x y d (put g) = put (rule g x y d)) (b : Brush) (size : UInt32)
    (g : Grid α) :
    (eachCell b size paint).run (put g) =
      match b.footprint size with
      | .error e => .error e (put g)
      | .ok r => .ok r (put (b.paint r rule g)) := by
  rw [eachCell]
  cases b.footprint size with
  | error e => rfl
  | ok r =>
      let visit (w : World) (p : Nat × Nat) : World :=
        match b.weight? p.1 p.2 with
        | some d => paint p.1 p.2 d w
        | none => w
      rw [demand, pure_bind, EStateM.run_bind, run_forM (g := visit)]
      · have hput : r.cells.foldl visit (put g) = put (b.paint r rule g) := by
          apply List.foldl_hom put
          intro g p
          dsimp only [visit]
          cases b.weight? p.1 p.2 with
          | none => rfl
          | some d => exact hpaint g p.1 p.2 d
        rw [hput]
        rfl
      · intro p w
        dsimp only [visit]
        cases b.weight? p.1 p.2 <;> rfl

theorem run_paintGround (b : Brush) (rule : Grid Float32 → Nat → Nat → Float32 → Grid Float32)
    (w : World) : (paintGround b rule).run w = ending w (w.paintGround b rule) := by
  have hcells := run_eachCell (fun heights => { w with ground := { w.ground with heights } })
    (fun x y d w => { w with ground := { w.ground with heights := rule w.ground.heights x y d } })
    (fun _ _ _ _ => rfl) b w.ground.size w.ground.heights
  rw [paintGround, EStateM.run_bind, EStateM.run_get]
  dsimp only
  rw [EStateM.run_bind, hcells, World.paintGround, HeightMap.painted]
  cases b.footprint w.ground.size <;> rfl

theorem run_paintRamp (b : Brush) (start : Point) (startHeight : Float32) (stop : Point)
    (stopHeight : Float32) (w : World) :
    (paintRamp b start startHeight stop stopHeight).run w =
      ending w (w.paintRamp b start startHeight stop stopHeight) := by
  rw [paintRamp, World.paintRamp]
  dsimp only
  split
  · rfl
  · exact run_paintGround b _ w

theorem run_paintFluid (b : Brush) (w : World) :
    (paintFluid b).run w = ending w.wait (w.wait.paintFluid b) := by
  have hcells := run_eachCell (fun back => { w with basin := { w.basin.wait with back } })
    (fun x y d w => { w with basin := { w.basin with back := Fluid.raiseRule w.basin.back x y d } })
    (fun _ _ _ _ => rfl) b w.basin.size w.basin.wait.back
  have hwait : (writeBasin Basin.wait).run w = .ok () w.wait := rfl
  have hsize : w.wait.basin.size = w.basin.size := w.basin.size_wait
  rw [paintFluid, EStateM.run_bind, EStateM.run_get]
  dsimp only
  rw [EStateM.run_bind, hwait, World.paintFluid, hsize]
  dsimp only
  rw [EStateM.run_bind, World.wait, hcells]
  cases b.footprint w.basin.size <;> rfl

theorem run_takeLeast (w : World) :
    takeLeast.run w =
      match w.objects.pool.takeLeast? with
      | none => .error (Objection.store .exhausted).failure w
      | some (n, pool) => .ok ⟨UInt64.ofNat n⟩ { w with objects := { w.objects with pool } } := by
  rw [takeLeast, EStateM.run_bind, EStateM.run_get]
  dsimp only
  cases w.objects.pool.takeLeast? <;> rfl

theorem run_take (id : ObjectId) (w : World) :
    (take id).run w =
      match w.objects.pool.take? id.word.toNat with
      | none => .error (Objection.store (.idInUse id)).failure w
      | some pool => .ok () { w with objects := { w.objects with pool } } := by
  rw [take, EStateM.run_bind, EStateM.run_get]
  dsimp only
  cases w.objects.pool.take? id.word.toNat <;> rfl

theorem run_fill (id : ObjectId) (e : Entity) (w : World) :
    (fill id e).run w = .ok () { w with objects := w.objects.put id e } := by
  rw [fill, EStateM.run_bind, EStateM.run_get, Table.put]
  dsimp only
  cases w.objects.get? id <;> rfl

theorem run_emplace (id : ObjectId) (make : ObjectId → Entity) (w : World) :
    (emplace id make).run w =
      match w.objects.createAt id make with
      | .error e => .error (Objection.store e).failure w
      | .ok (made, objects) => .ok made { w with objects } := by
  rw [emplace]
  split
  · rename_i hid
    rw [Table.createAt_null w.objects hid, Table.create_eq, EStateM.run_bind, run_takeLeast]
    cases w.objects.pool.takeLeast? with
    | none => rfl
    | some taken =>
        dsimp only
        rw [EStateM.run_bind, run_fill]
        rfl
  · rename_i hid
    rw [Table.createAt_eq w.objects hid, EStateM.run_bind, run_take]
    cases w.objects.pool.take? id.word.toNat with
    | none => rfl
    | some pool =>
        dsimp only
        rw [EStateM.run_bind, run_fill]
        rfl

theorem run_createSource (id : ObjectId) (pos : Point) (radius level capacity : Float32)
    (w : World) :
    (createSource id pos radius level capacity).run w =
      ending w (w.createSource id pos radius level capacity) := by
  rw [createSource, World.createSource]
  cases World.checkPlacement pos radius with
  | error e => rfl
  | ok _ =>
      rw [demand, pure_bind, EStateM.run_bind, run_emplace]
      dsimp only
      cases w.objects.createAt id fun id => .source ⟨id, pos, radius, level, capacity⟩ <;> rfl

theorem run_updateSource (id : ObjectId) (f : Source → Source) (w : World) :
    (updateSource id f).run w = ending w (w.updateSource id f) := by
  rw [updateSource, EStateM.run_bind, EStateM.run_get, World.updateSource]
  dsimp only
  cases w.source? id <;> rfl

theorem run_moveSource (id : ObjectId) (pos : Point) (w : World) :
    (moveSource id pos).run w = ending w (w.moveSource id pos) := by
  rw [moveSource, World.moveSource]
  cases World.checkPlacement pos 0 with
  | error e => rfl
  | ok _ => exact run_updateSource id _ w

theorem run_kill (id : ObjectId) (w : World) :
    (kill id).run w =
      .ok (w.objects.kill id).1 { w with objects := (w.objects.kill id).2 } := by
  rw [kill, EStateM.run_bind, EStateM.run_get, Table.kill]
  dsimp only
  cases w.objects.get? id <;> rfl

theorem run_forget (id : ObjectId) (w : World) :
    (forget id).run w = .ok () { w with basin := w.basin.removeSource id } := rfl

theorem run_destroySource (id : ObjectId) (w : World) :
    (destroySource id).run w = ending w (w.destroySource id) := by
  rw [destroySource, EStateM.run_bind, EStateM.run_get, World.destroySource]
  dsimp only
  cases w.source? id with
  | none => rfl
  | some s =>
      -- The list of sources forgets it before the object is killed.
      change (forget id >>= fun _ => kill id >>= fun _ => pure (Delta.destroyed id)).run w = _
      rw [EStateM.run_bind, run_forget]
      dsimp only
      rw [EStateM.run_bind, run_kill]
      rfl

/-- The work of an operation makes of the world that it meets what the operation makes of it, and
leaves it as it is where the operation fails. -/
theorem run_perform (op : Operation) (w : World) :
    (perform op).run w = ending (w.met op) ((w.met op).apply op) := by
  cases op with
  | terraformRaise b => exact run_paintGround b _ w
  | terraformLevel b reference => exact run_paintGround b _ w
  | terraformSmooth b => exact run_paintGround b _ w
  | terraformRamp b start startHeight stop stopHeight =>
      exact run_paintRamp b start startHeight stop stopHeight w
  | fluidRaise b => exact run_paintFluid b w
  | sourceCreate id pos radius level capacity =>
      exact run_createSource id pos radius level capacity w
  | sourceMove id pos => exact run_moveSource id pos w
  | sourceSetLevel id level => exact run_updateSource id _ w
  | sourceSetCapacity id capacity => exact run_updateSource id _ w
  | sourceDestroy id => exact run_destroySource id w
  | oceanSetLevel level => rfl
  | fluidReset => rfl

end Work

/-- An operation ends as its work does. Where it fails, the world is the one before it, with no more
than the fluid steps under way at their end. -/
theorem World.execute_perform (w : World) (op : Operation) :
    match (Work.perform op).run w with
    | .ok d w' => w.execute op = (.success d, w')
    | .error e w' =>
        w.execute op = (.failure e, w') ∧ (w' = if writesFluid op then w.wait else w) ∧
          w'.wait = w.wait := by
  rw [Work.run_perform, execute_eq]
  cases (w.met op).apply op with
  | ok applied => rfl
  | error e =>
      refine ⟨rfl, rfl, ?_⟩
      rw [met]
      split <;> rfl

end Terrarium
