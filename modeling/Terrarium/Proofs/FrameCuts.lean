import Terrarium.Proofs.SourceRegistry

/-!
Cutting operations into frames. The outcomes of operations, and the world they lead to but for the
cells of the fluid, depend on the operations in their order alone and not on the frames they are
executed in.
-/
namespace Terrarium.World

attribute [ext] HeightMap Basin World

/-- One frame whose step of the fluid comes to its end. -/
def turn (w : World) (ops : List Operation) : List Outcome × World :=
  let (outcomes, w) := w.frame ops
  (outcomes, w.wait)

/-- Frames in turn, with the outcomes of all their operations. -/
def turns (w : World) : List (List Operation) → List Outcome × World
  | [] => ([], w)
  | ops :: rest =>
      let (outcomes, w) := w.turn ops
      let (more, w) := w.turns rest
      (outcomes ++ more, w)

/-- Two worlds agree on all that operations decide by, which leaves out the cells of the fluid, the
changes of the ground not yet passed on and what was copied of the sources. -/
structure Agree (v w : World) : Prop where
  heights : v.ground.heights = w.ground.heights
  objects : v.objects = w.objects
  sources : v.basin.sources = w.basin.sources
  ocean : v.basin.ocean = w.basin.ocean
  size : v.basin.size = w.basin.size

/-- Results that say the same of worlds that agree. -/
inductive Alike : Except Failure (Delta × World) → Except Failure (Delta × World) → Prop where
  | refused (e : Failure) : Alike (.error e) (.error e)
  | applied (d : Delta) {v w : World} (h : Agree v w) : Alike (.ok (d, v)) (.ok (d, w))

variable {u v w : World}

theorem Agree.refl (w : World) : Agree w w := ⟨rfl, rfl, rfl, rfl, rfl⟩

theorem Agree.symm (h : Agree v w) : Agree w v :=
  ⟨h.heights.symm, h.objects.symm, h.sources.symm, h.ocean.symm, h.size.symm⟩

theorem Agree.trans (h : Agree u v) (h' : Agree v w) : Agree u w :=
  ⟨h.heights.trans h'.heights, h.objects.trans h'.objects, h.sources.trans h'.sources,
    h.ocean.trans h'.ocean, h.size.trans h'.size⟩

theorem Agree.source? (h : Agree v w) (id : ObjectId) : v.source? id = w.source? id := by
  rw [World.source?, World.source?, h.objects]

theorem Agree.groundSize (h : Agree v w) : v.ground.size = w.ground.size :=
  congrArg Grid.size h.heights

theorem wait_agree (w : World) : Agree w.wait w :=
  ⟨rfl, rfl, rfl, rfl, w.basin.size_wait⟩

theorem start_agree (w : World) : Agree { w with basin := w.basin.start } w :=
  ⟨rfl, rfl, rfl, rfl, rfl⟩

theorem upkeep_agree (hw : w.Registered) : Agree w.upkeep w :=
  ⟨rfl, rfl, sources_upkeep hw, ocean_upkeep w, size_upkeep w⟩

theorem Agree.met (h : Agree v w) (op : Operation) : Agree (v.met op) (w.met op) := by
  rw [World.met, World.met]
  split
  · exact (wait_agree v).trans (h.trans (wait_agree w).symm)
  · exact h

theorem paintGround_alike (h : Agree v w) (b : Brush)
    (rule : Grid Float32 → Nat → Nat → Float32 → Grid Float32) :
    Alike (v.paintGround b rule) (w.paintGround b rule) := by
  rw [paintGround, paintGround, HeightMap.painted, HeightMap.painted, h.groundSize]
  cases b.footprint w.ground.size with
  | error e => exact .refused e
  | ok r =>
      refine .applied (.terrain r) ⟨?_, h.objects, h.sources, h.ocean, h.size⟩
      change b.paint r rule v.ground.heights = b.paint r rule w.ground.heights
      rw [h.heights]

theorem paintRamp_alike (h : Agree v w) (b : Brush) (start : Point) (startHeight : Float32)
    (stop : Point) (stopHeight : Float32) :
    Alike (v.paintRamp b start startHeight stop stopHeight)
      (w.paintRamp b start startHeight stop stopHeight) := by
  rw [paintRamp, paintRamp]
  dsimp only
  split
  · exact .refused _
  · exact paintGround_alike h b _

theorem paintFluid_alike (h : Agree v w) (b : Brush) : Alike (v.paintFluid b) (w.paintFluid b) := by
  rw [paintFluid, paintFluid, h.size]
  cases b.footprint w.basin.size with
  | error e => exact .refused e
  | ok r =>
      have hsize (b' : Basin) : (b'.write (b.paint r Fluid.raiseRule)).size = b'.size :=
        b'.size_write fun g => b.size_paint r (fun g x y d => g.size_modify x y _) g
      refine .applied (.fluid r) ⟨h.heights, h.objects, h.sources, h.ocean, ?_⟩
      exact (hsize v.basin).trans (h.size.trans (hsize w.basin).symm)

theorem createSource_alike (h : Agree v w) (id : ObjectId) (pos : Point)
    (radius level capacity : Float32) :
    Alike (v.createSource id pos radius level capacity)
      (w.createSource id pos radius level capacity) := by
  rw [createSource, createSource, h.objects]
  cases checkPlacement pos radius with
  | error e => exact .refused e
  | ok _ =>
      dsimp only
      split
      · exact .refused _
      · rename_i made objects hmade
        refine .applied (.created made) ⟨h.heights, rfl, ?_, h.ocean, h.size⟩
        simp only [Basin.addSource, h.sources]

theorem updateSource_alike (h : Agree v w) (id : ObjectId) (f : Source → Source) :
    Alike (v.updateSource id f) (w.updateSource id f) := by
  rw [updateSource, updateSource, h.source? id, h.objects]
  cases w.source? id with
  | none => exact .refused _
  | some s => exact .applied (.updated id) ⟨h.heights, rfl, h.sources, h.ocean, h.size⟩

theorem moveSource_alike (h : Agree v w) (id : ObjectId) (pos : Point) :
    Alike (v.moveSource id pos) (w.moveSource id pos) := by
  rw [moveSource, moveSource]
  cases checkPlacement pos 0 with
  | error e => exact .refused e
  | ok _ => exact updateSource_alike h id _

theorem destroySource_alike (h : Agree v w) (id : ObjectId) :
    Alike (v.destroySource id) (w.destroySource id) := by
  rw [destroySource, destroySource, h.source? id, h.objects]
  cases w.source? id with
  | none => exact .refused _
  | some s =>
      refine .applied (.destroyed id) ⟨h.heights, rfl, ?_, h.ocean, h.size⟩
      simp only [Basin.removeSource, h.sources]

/-- An operation decides by what worlds agree on, and leaves them in agreement. -/
theorem apply_alike (h : Agree v w) (op : Operation) : Alike (v.apply op) (w.apply op) := by
  cases op with
  | terraformRaise b => exact paintGround_alike h b _
  | terraformLevel b reference => exact paintGround_alike h b _
  | terraformSmooth b => exact paintGround_alike h b _
  | terraformRamp b start startHeight stop stopHeight =>
      exact paintRamp_alike h b start startHeight stop stopHeight
  | fluidRaise b => exact paintFluid_alike h b
  | sourceCreate id pos radius level capacity =>
      exact createSource_alike h id pos radius level capacity
  | sourceMove id pos => exact moveSource_alike h id pos
  | sourceSetLevel id level => exact updateSource_alike h id _
  | sourceSetCapacity id capacity => exact updateSource_alike h id _
  | sourceDestroy id => exact destroySource_alike h id
  | oceanSetLevel level => exact .applied .nothing ⟨h.heights, h.objects, h.sources, rfl, h.size⟩
  | fluidReset =>
      refine .applied .nothing ⟨h.heights, h.objects, h.sources, h.ocean, ?_⟩
      exact v.basin.size_reset.trans (h.size.trans w.basin.size_reset.symm)

theorem execute_agree (h : Agree v w) (op : Operation) :
    (v.execute op).1 = (w.execute op).1 ∧ Agree (v.execute op).2 (w.execute op).2 := by
  have halike := apply_alike (h.met op) op
  rw [execute_eq, execute_eq]
  generalize (v.met op).apply op = left at halike ⊢
  generalize (w.met op).apply op = right at halike ⊢
  cases halike with
  | refused e => exact ⟨rfl, h.met op⟩
  | applied d hnext => exact ⟨rfl, hnext⟩

theorem executeAll_agree (h : Agree v w) (ops : List Operation) :
    (v.executeAll ops).1 = (w.executeAll ops).1 ∧
      Agree (v.executeAll ops).2 (w.executeAll ops).2 := by
  induction ops generalizing v w with
  | nil => exact ⟨rfl, h⟩
  | cons op ops ih =>
      obtain ⟨houtcome, hnext⟩ := execute_agree h op
      obtain ⟨houtcomes, hlast⟩ := ih hnext
      refine ⟨?_, hlast⟩
      simp only [executeAll, houtcome, houtcomes]

theorem executeAll_append (w : World) (ops more : List Operation) :
    w.executeAll (ops ++ more) =
      ((w.executeAll ops).1 ++ ((w.executeAll ops).2.executeAll more).1,
        ((w.executeAll ops).2.executeAll more).2) := by
  induction ops generalizing w with
  | nil => rfl
  | cons op ops ih => simp only [List.cons_append, executeAll, ih]

theorem turn_outcomes (w : World) (ops : List Operation) :
    (w.turn ops).1 = (w.executeAll ops).1 := rfl

theorem turn_agree (hw : w.Registered) (ops : List Operation) :
    Agree (w.turn ops).2 (w.executeAll ops).2 :=
  (wait_agree _).trans ((start_agree _).trans (upkeep_agree (hw.executeAll ops)))

theorem Registered.turn (hw : w.Registered) (ops : List Operation) : (w.turn ops).2.Registered :=
  (hw.executeAll ops).upkeep.start.wait

theorem Registered.turns (hw : w.Registered) (batches : List (List Operation)) :
    (w.turns batches).2.Registered := by
  induction batches generalizing w with
  | nil => exact hw
  | cons ops rest ih => exact ih (hw.turn ops)

/-- Frames make of a world what their operations make of it without any frames. -/
theorem turns_agree (hw : w.Registered) (batches : List (List Operation)) :
    (w.turns batches).1 = (w.executeAll batches.flatten).1 ∧
      Agree (w.turns batches).2 (w.executeAll batches.flatten).2 := by
  induction batches generalizing w with
  | nil => exact ⟨rfl, Agree.refl w⟩
  | cons ops rest ih =>
      obtain ⟨houtcomes, hlast⟩ := ih (hw.turn ops)
      obtain ⟨hmore, hagree⟩ := executeAll_agree (turn_agree hw ops) rest.flatten
      rw [List.flatten_cons, executeAll_append]
      refine ⟨?_, hlast.trans hagree⟩
      simp only [World.turns, houtcomes, hmore, turn_outcomes]

/-- A world between frames, after so many steps of its fluid: nothing waits to be passed on. -/
structure Rested (n : Nat) (w : World) : Prop where
  dirty : w.ground.dirty = Rect.empty
  stale : w.basin.stale = false
  waiting : w.basin.waiting = []
  started : w.basin.started = n
  finished : w.basin.finished = n

theorem rested_onGround (ground : HeightMap) (hdirty : ground.dirty = Rect.empty) :
    (onGround ground).Rested 0 :=
  ⟨hdirty, rfl, rfl, rfl, rfl⟩

theorem started_executeAll (w : World) (ops : List Operation) :
    (w.executeAll ops).2.basin.started = w.basin.started :=
  executeAll_keeps (P := fun v => v.basin.started = w.basin.started)
    (fun v op hv => (v.started_execute op).trans hv) rfl ops

theorem Rested.turn {n : Nat} (hw : w.Rested n) (ops : List Operation) :
    (w.turn ops).2.Rested (n + 1) := by
  have hstarted : (w.turn ops).2.basin.started = n + 1 := by
    change (w.executeAll ops).2.upkeep.basin.started + 1 = n + 1
    rw [started_upkeep, started_executeAll, hw.started]
  exact ⟨rfl, stale_upkeep _, rfl, hstarted, hstarted⟩

theorem Rested.turns {n : Nat} (hw : w.Rested n) (batches : List (List Operation)) :
    (w.turns batches).2.Rested (n + batches.length) := by
  induction batches generalizing n w with
  | nil => exact hw
  | cons ops rest ih =>
      have hlast := ih (hw.turn ops)
      rwa [Nat.add_assoc, Nat.add_comm 1] at hlast

/-- Worlds between frames that agree are equal but for the cells of the fluid and the count of its
steps. -/
theorem Agree.eq_of_rested (h : Agree v w) (hv : v.Registered) (hw : w.Registered) {m n : Nat}
    (hv' : v.Rested m) (hw' : w.Rested n) :
    w = { v with
      basin := { v.basin with
        back := w.basin.back, front := w.basin.front, started := n, finished := n } } := by
  have hreaches : v.basin.reaches = w.basin.reaches := by
    have hsource : v.source? = w.source? := funext h.source?
    rw [hv.fresh hv'.stale, hw.fresh hw'.stale, reachesNow, reachesNow, h.sources, hsource, h.size]
  apply World.ext
  · exact HeightMap.ext h.heights.symm (hw'.dirty.trans hv'.dirty.symm)
  · apply Basin.ext
    · exact h.ocean.symm
    · exact h.sources.symm
    · exact hreaches.symm
    · exact hw'.stale.trans hv'.stale.symm
    · rfl
    · rfl
    · exact hw'.waiting.trans hv'.waiting.symm
    · exact hw'.started
    · exact hw'.finished
  · exact h.objects.symm

/-- However operations are cut into frames, they end the same way and lead to the same world, but for
the cells of the fluid and the count of its steps. -/
theorem turns_eq_of_flatten_eq (size : UInt32) {batches batches' : List (List Operation)}
    (hcut : batches.flatten = batches'.flatten) :
    let (outcomes, v) := (new size).turns batches
    let (outcomes', w) := (new size).turns batches'
    outcomes = outcomes' ∧ v.ground.heights = w.ground.heights ∧ v.objects = w.objects ∧
      v.basin.sources = w.basin.sources ∧ v.basin.ocean = w.basin.ocean ∧
      w = { v with
        basin := { v.basin with
          back := w.basin.back
          front := w.basin.front
          started := batches'.length
          finished := batches'.length } } := by
  have hnew : (new size).Registered := registered_onGround (HeightMap.new size)
  have hrest : (new size).Rested 0 := rested_onGround (HeightMap.new size) rfl
  obtain ⟨houtcomes, hagree⟩ := turns_agree hnew batches
  obtain ⟨houtcomes', hagree'⟩ := turns_agree hnew batches'
  rw [← hcut] at houtcomes' hagree'
  have h := hagree.trans hagree'.symm
  refine ⟨houtcomes.trans houtcomes'.symm, h.heights, h.objects, h.sources, h.ocean, ?_⟩
  have hrested := hrest.turns batches'
  rw [Nat.zero_add] at hrested
  exact h.eq_of_rested (hnew.turns batches) (hnew.turns batches') (hrest.turns batches) hrested

theorem turns_eq_of_flatten_eq_sources :
    let source : ObjectId := ⟨3⟩
    let create := Operation.sourceCreate source ⟨1, 1⟩ 2 30 5
    let batches := [[], [create], [.sourceDestroy ⟨1⟩, .fluidReset], [.sourceCreate .null ⟨2, 2⟩ 1 9 9]]
    let batches' := [[create, .sourceDestroy ⟨1⟩], [], [.fluidReset, .sourceCreate .null ⟨2, 2⟩ 1 9 9]]
    batches.flatten = batches'.flatten ∧
      ((new 4).turns batches).1 = ((new 4).turns batches').1 ∧
      ((new 4).turns batches).2.basin.sources = ((new 4).turns batches').2.basin.sources := by
  intro source create batches batches'
  have hcut : batches.flatten = batches'.flatten := rfl
  obtain ⟨houtcomes, -, -, hsources, -⟩ := turns_eq_of_flatten_eq 4 hcut
  exact ⟨hcut, houtcomes, hsources⟩

end Terrarium.World
