import Terrarium.Proofs.GridSize
import Terrarium.Proofs.TableLookup
import Terrarium.Proofs.WorldChange

namespace Terrarium

namespace Basin

@[simp] theorem sources_groundUpdated (b : Basin) (r : Rect) (m : HeightMap) :
    (b.groundUpdated r m).sources = b.sources := by
  rw [groundUpdated]
  split <;> rfl

@[simp] theorem reaches_groundUpdated (b : Basin) (r : Rect) (m : HeightMap) :
    (b.groundUpdated r m).reaches = b.reaches := by
  rw [groundUpdated]
  split <;> rfl

@[simp] theorem stale_groundUpdated (b : Basin) (r : Rect) (m : HeightMap) :
    (b.groundUpdated r m).stale = b.stale := by
  rw [groundUpdated]
  split <;> rfl

@[simp] theorem ocean_groundUpdated (b : Basin) (r : Rect) (m : HeightMap) :
    (b.groundUpdated r m).ocean = b.ocean := by
  rw [groundUpdated]
  split <;> rfl

@[simp] theorem started_groundUpdated (b : Basin) (r : Rect) (m : HeightMap) :
    (b.groundUpdated r m).started = b.started := by
  rw [groundUpdated]
  split <;> rfl

theorem sources_mapSources {b : Basin} {source? : ObjectId → Option Source}
    (hlive : ∀ id ∈ b.sources, (source? id).isSome) :
    (b.mapSources source?).sources = b.sources :=
  List.filter_eq_self.mpr hlive

end Basin

namespace World

/-- What the next step of the fluid would get of the sources if it were copied now. -/
def reachesNow (w : World) : List Reach :=
  (w.basin.sources.filterMap w.source?).map fun s => Reach.ofSource s w.basin.size

/-- Registered sources live, and what was copied of them is up to date or marked as stale. -/
structure Registered (w : World) : Prop where
  live : ∀ id ∈ w.basin.sources, (w.source? id).isSome
  fresh : w.basin.stale = false → w.basin.reaches = w.reachesNow

theorem registered_onGround (ground : HeightMap) : (onGround ground).Registered where
  live _ hid := absurd hid List.not_mem_nil
  fresh _ := rfl

variable {v w : World}

theorem Registered.of_eq (hw : w.Registered) (hobjects : v.objects = w.objects)
    (hsources : v.basin.sources = w.basin.sources) (hreaches : v.basin.reaches = w.basin.reaches)
    (hstale : v.basin.stale = w.basin.stale) (hsize : v.basin.size = w.basin.size) :
    v.Registered := by
  have hsource : v.source? = w.source? := by
    funext id
    rw [source?, source?, hobjects]
  constructor
  · rw [hsources, hsource]
    exact hw.live
  · intro hfresh
    rw [hreaches, hw.fresh (hstale ▸ hfresh), reachesNow, reachesNow, hsources, hsource, hsize]

theorem Registered.wait (hw : w.Registered) : w.wait.Registered :=
  hw.of_eq rfl rfl rfl rfl w.basin.size_wait

theorem Registered.start (hw : w.Registered) : { w with basin := w.basin.start }.Registered :=
  hw.of_eq rfl rfl rfl rfl rfl

theorem source?_update {objects : Table Entity} {id i : ObjectId} {f : Source → Source}
    (hlive : (objects.getAs? Entity.source? i).isSome) :
    ((objects.update id (Entity.mapSource f)).getAs? Entity.source? i).isSome := by
  rw [Table.getAs?] at hlive ⊢
  rw [Table.get?_update]
  split
  · rename_i hi
    rw [← hi]
    cases hget : objects.get? i with
    | none => simp [hget] at hlive
    | some e =>
        cases e with
        | source s => simp [Entity.mapSource, Entity.source?]
        | marker m => simp [hget, Entity.source?] at hlive
  · exact hlive

theorem source?_kill {objects : Table Entity} {id i : ObjectId} (hne : i ≠ id)
    (hlive : (objects.getAs? Entity.source? i).isSome) :
    ((objects.kill id).2.getAs? Entity.source? i).isSome := by
  rw [Table.getAs?] at hlive ⊢
  cases hget : objects.get? i with
  | none => simp [hget] at hlive
  | some e =>
      rw [Table.get?_kill_of_ne hget hne]
      rwa [hget] at hlive

theorem Registered.change {d : Delta} {w' : World} (hw : w.Registered) (h : w.Change d w') :
    w'.Registered := by
  cases h with
  | painted hfoot hrule => exact hw.of_eq rfl rfl rfl rfl rfl
  | @raised b r hfoot =>
      have hsize : (w.basin.write (b.paint r Fluid.raiseRule)).size = w.basin.size :=
        w.basin.size_write fun g => b.size_paint r (fun g x y d => g.size_modify x y _) g
      exact hw.of_eq rfl rfl rfl rfl hsize
  | @created id made make objects hident hmade =>
      refine ⟨?_, fun hstale => absurd hstale (by simp [Basin.addSource])⟩
      intro i hi
      apply Table.getAs?_createAt_isSome hmade rfl
      by_cases hold : i ∈ w.basin.sources
      · exact .inr (hw.live i hold)
      · left
        simp only [Basin.addSource] at hi
        split at hi
        · exact absurd hi hold
        · simpa [hold] using hi
  | updated hident hlive =>
      refine ⟨?_, fun hstale => absurd hstale (by simp [Basin.invalidate])⟩
      intro i hi
      exact source?_update (hw.live i hi)
  | @destroyed id s hlive =>
      refine ⟨?_, fun hstale => absurd hstale (by simp [Basin.removeSource])⟩
      intro i hi
      obtain ⟨hold, hne⟩ : i ∈ w.basin.sources ∧ i ≠ id := by
        simpa [Basin.removeSource] using hi
      exact source?_kill hne (hw.live i hold)
  | levelled level => exact hw.of_eq rfl rfl rfl rfl rfl
  | drained => exact hw.of_eq rfl rfl rfl rfl w.basin.size_reset

theorem Registered.execute (hw : w.Registered) (op : Operation) : (w.execute op).2.Registered :=
  execute_keeps (fun _ h => h.wait) (fun _ _ _ h => h.change) hw op

theorem Registered.executeAll (hw : w.Registered) (ops : List Operation) :
    (w.executeAll ops).2.Registered :=
  executeAll_keeps (fun _ op h => h.execute op) hw ops

/-- The basin when upkeep has told it what changed of the ground. -/
def grounded (w : World) : Basin :=
  if w.ground.dirty.isEmpty then w.basin
  else w.basin.groundUpdated w.ground.dirty w.ground.takeDirty.2

theorem upkeep_eq (w : World) :
    w.upkeep =
      { w with
        ground := { w.ground with dirty := Rect.empty }
        basin := if w.grounded.stale then w.grounded.mapSources w.source? else w.grounded } := rfl

theorem part_grounded {α : Type} {part : Basin → α}
    (hpart : ∀ b r m, part (Basin.groundUpdated b r m) = part b) (w : World) :
    part w.grounded = part w.basin := by
  rw [grounded]
  split
  · rfl
  · exact hpart _ _ _

@[simp] theorem sources_grounded (w : World) : w.grounded.sources = w.basin.sources :=
  part_grounded Basin.sources_groundUpdated w

@[simp] theorem reaches_grounded (w : World) : w.grounded.reaches = w.basin.reaches :=
  part_grounded Basin.reaches_groundUpdated w

@[simp] theorem stale_grounded (w : World) : w.grounded.stale = w.basin.stale :=
  part_grounded Basin.stale_groundUpdated w

@[simp] theorem ocean_grounded (w : World) : w.grounded.ocean = w.basin.ocean :=
  part_grounded Basin.ocean_groundUpdated w

@[simp] theorem started_grounded (w : World) : w.grounded.started = w.basin.started :=
  part_grounded Basin.started_groundUpdated w

@[simp] theorem size_grounded (w : World) : w.grounded.size = w.basin.size :=
  part_grounded Basin.size_groundUpdated w

theorem sources_upkeep (hw : w.Registered) : w.upkeep.basin.sources = w.basin.sources := by
  rw [upkeep_eq]
  dsimp only
  split
  · have hlive : ∀ id ∈ w.grounded.sources, (w.source? id).isSome := by
      rw [sources_grounded]
      exact hw.live
    rw [Basin.sources_mapSources hlive, sources_grounded]
  · exact w.sources_grounded

@[simp] theorem size_upkeep (w : World) : w.upkeep.basin.size = w.basin.size := by
  rw [upkeep_eq]
  dsimp only
  split <;> exact w.size_grounded

@[simp] theorem ocean_upkeep (w : World) : w.upkeep.basin.ocean = w.basin.ocean := by
  rw [upkeep_eq]
  dsimp only
  split <;> exact w.ocean_grounded

@[simp] theorem started_upkeep (w : World) : w.upkeep.basin.started = w.basin.started := by
  rw [upkeep_eq]
  dsimp only
  split <;> exact w.started_grounded

@[simp] theorem stale_upkeep (w : World) : w.upkeep.basin.stale = false := by
  rw [upkeep_eq]
  dsimp only
  split
  · rfl
  · rename_i hstale
    exact Bool.eq_false_iff.mpr hstale

theorem reaches_upkeep (hw : w.Registered) : w.upkeep.basin.reaches = w.reachesNow := by
  rw [upkeep_eq]
  dsimp only
  split
  · rw [Basin.mapSources, sources_grounded, size_grounded]
    rfl
  · rename_i hstale
    rw [stale_grounded] at hstale
    rw [reaches_grounded, hw.fresh (Bool.eq_false_iff.mpr hstale)]

theorem Registered.upkeep (hw : w.Registered) : w.upkeep.Registered := by
  constructor
  · rw [sources_upkeep hw]
    exact hw.live
  · intro _
    rw [reaches_upkeep hw, reachesNow, reachesNow, sources_upkeep hw, size_upkeep]
    rfl

end World

end Terrarium
