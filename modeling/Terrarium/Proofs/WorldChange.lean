import Terrarium.World

namespace Terrarium

/-- The rules by which ground is painted: each cell for itself, or each toward the average around
it. -/
inductive GroundRule : (Grid Float32 → Nat → Nat → Float32 → Grid Float32) → Prop where
  | own (rule : Float32 → Float32 → Nat → Nat → Float32) : GroundRule (HeightMap.ownRule rule)
  | smooth : GroundRule HeightMap.smoothRule

/-- The rule by which fluid is painted. -/
def Fluid.raiseRule (g : Grid Cell) (x y : Nat) (d : Float32) : Grid Cell :=
  g.modify x y fun c => { c with depth := Single.larger (c.depth + d) 0 }

namespace World

/-- The world that an operation with a certain effect leaves behind. -/
inductive Change (w : World) : Delta → World → Prop where
  | painted {b : Brush} {r : Rect} {rule : Grid Float32 → Nat → Nat → Float32 → Grid Float32}
      (hfoot : b.footprint w.ground.size = .ok r) (hrule : GroundRule rule) :
      Change w (.terrain r)
        { w with
          ground := { w.ground with heights := b.paint r rule w.ground.heights }.announce r }
  | raised {b : Brush} {r : Rect} (hfoot : b.footprint w.basin.size = .ok r) :
      Change w (.fluid r) { w with basin := w.basin.write (b.paint r Fluid.raiseRule) }
  | created {id made : ObjectId} {make : ObjectId → Source} {objects : Table Entity}
      (hident : ∀ id, (make id).id = id)
      (hmade : w.objects.createAt id (fun id => .source (make id)) = .ok (made, objects)) :
      Change w (.created made) { w with objects, basin := w.basin.addSource made }
  | updated {id : ObjectId} {s : Source} {f : Source → Source} (hident : ∀ s, (f s).id = s.id)
      (hlive : w.source? id = some s) :
      Change w (.updated id)
        { w with objects := w.objects.update id (Entity.mapSource f), basin := w.basin.invalidate }
  | destroyed {id : ObjectId} {s : Source} (hlive : w.source? id = some s) :
      Change w (.destroyed id)
        { w with basin := w.basin.removeSource id, objects := (w.objects.kill id).2 }
  | levelled (level : Float32) : Change w .nothing { w with basin := w.basin.setOcean level }
  | drained : Change w .nothing { w with basin := w.basin.reset }

variable {w w' : World} {d : Delta}

theorem paintGround_change {b : Brush}
    {rule : Grid Float32 → Nat → Nat → Float32 → Grid Float32} (hrule : GroundRule rule)
    (h : w.paintGround b rule = .ok (d, w')) : w.Change d w' := by
  rw [paintGround, HeightMap.painted] at h
  cases hfoot : b.footprint w.ground.size with
  | error e => simp [hfoot] at h
  | ok r =>
      simp only [hfoot, Except.ok.injEq, Prod.mk.injEq] at h
      obtain ⟨rfl, rfl⟩ := h
      exact .painted hfoot hrule

theorem paintRamp_change {b : Brush} {start stop : Point} {startHeight stopHeight : Float32}
    (h : w.paintRamp b start startHeight stop stopHeight = .ok (d, w')) : w.Change d w' := by
  rw [paintRamp] at h
  dsimp only at h
  split at h
  · simp at h
  · exact paintGround_change (.own _) h

theorem paintFluid_change {b : Brush} (h : w.paintFluid b = .ok (d, w')) : w.Change d w' := by
  rw [paintFluid] at h
  cases hfoot : b.footprint w.basin.size with
  | error e => simp [hfoot] at h
  | ok r =>
      simp only [hfoot, Except.ok.injEq, Prod.mk.injEq] at h
      obtain ⟨rfl, rfl⟩ := h
      exact .raised hfoot

theorem createSource_change {id : ObjectId} {pos : Point} {radius level capacity : Float32}
    (h : w.createSource id pos radius level capacity = .ok (d, w')) : w.Change d w' := by
  rw [createSource] at h
  split at h
  · simp at h
  · split at h
    · simp at h
    · rename_i made objects hmade
      simp only [Except.ok.injEq, Prod.mk.injEq] at h
      obtain ⟨rfl, rfl⟩ := h
      exact .created (fun _ => rfl) hmade

theorem updateSource_change {id : ObjectId} {f : Source → Source}
    (h : w.updateSource id f = .ok (d, w')) (hident : ∀ s, (f s).id = s.id) : w.Change d w' := by
  rw [updateSource] at h
  cases hlive : w.source? id with
  | none => simp [hlive] at h
  | some s =>
      simp only [hlive, Except.ok.injEq, Prod.mk.injEq] at h
      obtain ⟨rfl, rfl⟩ := h
      exact .updated hident hlive

theorem moveSource_change {id : ObjectId} {pos : Point} (h : w.moveSource id pos = .ok (d, w')) :
    w.Change d w' := by
  rw [moveSource] at h
  split at h
  · simp at h
  · exact updateSource_change h fun _ => rfl

theorem destroySource_change {id : ObjectId} (h : w.destroySource id = .ok (d, w')) :
    w.Change d w' := by
  rw [destroySource] at h
  cases hlive : w.source? id with
  | none => simp [hlive] at h
  | some s =>
      simp only [hlive, Except.ok.injEq, Prod.mk.injEq] at h
      obtain ⟨rfl, rfl⟩ := h
      exact .destroyed hlive

theorem apply_change {op : Operation} (h : w.apply op = .ok (d, w')) : w.Change d w' := by
  cases op with
  | terraformRaise b => exact paintGround_change (.own _) h
  | terraformLevel b reference => exact paintGround_change (.own _) h
  | terraformSmooth b => exact paintGround_change .smooth h
  | terraformRamp b start startHeight stop stopHeight => exact paintRamp_change h
  | fluidRaise b => exact paintFluid_change h
  | sourceCreate id pos radius level capacity => exact createSource_change h
  | sourceMove id pos => exact moveSource_change h
  | sourceSetLevel id level => exact updateSource_change h fun _ => rfl
  | sourceSetCapacity id capacity => exact updateSource_change h fun _ => rfl
  | sourceDestroy id => exact destroySource_change h
  | oceanSetLevel level =>
      simp only [apply, Except.ok.injEq, Prod.mk.injEq] at h
      obtain ⟨rfl, rfl⟩ := h
      exact .levelled level
  | fluidReset =>
      simp only [apply, Except.ok.injEq, Prod.mk.injEq] at h
      obtain ⟨rfl, rfl⟩ := h
      exact .drained

/-- The world that an operation meets: one that works on the fluid has waited for it. -/
def met (w : World) (op : Operation) : World := if writesFluid op then w.wait else w

theorem execute_eq (w : World) (op : Operation) :
    w.execute op =
      match (w.met op).apply op with
      | .error e => (.failure e, w.met op)
      | .ok (delta, w) => (.success delta, w) := rfl

/-- A property that waiting and every change keep is kept by every operation. -/
theorem execute_keeps {P : World → Prop} (hwait : ∀ w, P w → P w.wait)
    (hchange : ∀ w d w', P w → Change w d w' → P w') (hw : P w) (op : Operation) :
    P (w.execute op).2 := by
  have hmet : P (w.met op) := by
    rw [met]
    split
    · exact hwait w hw
    · exact hw
  rw [execute_eq]
  split
  · exact hmet
  · rename_i delta next happly
    exact hchange (w.met op) delta next hmet (apply_change happly)

theorem started_execute (w : World) (op : Operation) :
    (w.execute op).2.basin.started = w.basin.started := by
  apply execute_keeps (P := fun v => v.basin.started = w.basin.started) (fun _ h => h) _ rfl op
  intro v d v' hv hchange
  cases hchange <;> exact hv

theorem executeAll_keeps {P : World → Prop} (hexecute : ∀ w op, P w → P (execute w op).2) (hw : P w)
    (ops : List Operation) : P (w.executeAll ops).2 := by
  induction ops generalizing w with
  | nil => exact hw
  | cons op ops ih => exact ih (hexecute w op hw)

end World

end Terrarium
