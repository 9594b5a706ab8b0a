import Mathlib.Data.List.Dedup
import Terrarium.Proofs.GroundCopy
import Terrarium.Proofs.IdPartition
import Terrarium.Proofs.SourceRegistry

namespace Terrarium

theorem dedup_concat {α : Type} [DecidableEq α] (l : List α) (a : α) :
    (l ++ [a]).dedup = l.dedup.filter (· ≠ a) ++ [a] := by
  induction l with
  | nil => rfl
  | cons b l ih =>
      rw [List.cons_append, List.dedup_cons, ih, List.dedup_cons]
      rcases eq_or_ne b a with rfl | hb
      · by_cases hl : b ∈ l <;> simp [hl]
      · by_cases hl : b ∈ l <;> simp [hl, hb]

namespace Table

variable {t : Table Entity}

theorem source?_update_mapSource (t : Table Entity) (id i : ObjectId) (f : Source → Source) :
    (t.update id (Entity.mapSource f)).getAs? Entity.source? i =
      if i = id then (t.getAs? Entity.source? i).map f else t.getAs? Entity.source? i := by
  rw [getAs?, getAs?, get?_update]
  split
  · rename_i hi
    rw [hi]
    cases t.get? id with
    | none => rfl
    | some e => cases e <;> rfl
  · rfl

theorem get?_kill {α : Type} {t : Table α} (h : Descending t.slots) (id i : ObjectId) :
    (t.kill id).2.get? i = if i = id then none else t.get? i := by
  rw [kill]
  split
  · exact lookup_eraseSlot h
  · rename_i hnone
    split
    · rename_i hi
      rw [hi]
      exact Option.not_isSome_iff_eq_none.mp hnone
    · rfl

end Table

namespace Basin

@[simp] theorem sources_publish (b : Basin) : b.publish.sources = b.sources := by
  rw [publish]
  split <;> rfl

@[simp] theorem sources_finish (b : Basin) : b.finish.sources = b.sources := by
  rw [finish]
  split <;> rfl

end Basin

/-- The object that an operation made, if it made one. -/
def Outcome.created? : Outcome → Option ObjectId
  | .success (.created id) => some id
  | _ => none

namespace World

variable {made : List ObjectId} {v w : World}

theorem Registered.publish (hw : w.Registered) :
    { w with basin := w.basin.publish }.Registered := by
  rw [Basin.publish]
  split
  · exact hw
  · exact hw.of_eq rfl rfl rfl rfl (Fluid.size_step w.basin.back _)

theorem Registered.finish (hw : w.Registered) :
    { w with basin := w.basin.finish }.Registered := by
  rw [Basin.finish]
  split
  · exact hw.of_eq rfl rfl rfl rfl rfl
  · exact hw

theorem Registered.move (hw : w.Registered) (m : Move) : (w.move m).Registered := by
  cases m with
  | execute op => exact hw.execute op
  | upkeep => exact hw.upkeep
  | start => exact hw.start
  | publish => exact hw.publish
  | finish => exact hw.finish
  | wait => exact hw.wait

theorem registered_happenAll (size : UInt32) (past : List Happening) :
    ((new size).happenAll past).Registered := by
  suffices h : ∀ w : World, w.Registered → (w.happenAll past).Registered from
    h _ (registered_onGround _)
  induction past with
  | nil => exact fun _ hw => hw
  | cons e past ih =>
      intro w hw
      apply ih
      cases e with
      | move m => exact hw.move m
      | setHeight x y h => exact hw.of_eq rfl rfl rfl rfl rfl

/-- The objects that are made in the course of moves, in the order in which they are made. -/
def created (w : World) : List Move → List ObjectId
  | [] => []
  | .execute op :: moves =>
      (w.execute op).1.created?.toList ++ (w.execute op).2.created moves
  | m :: moves => (w.move m).created moves

/-- Of the objects made so far the registry lists the sources that live, in the order in which they
were last made. -/
structure Listed (made : List ObjectId) (w : World) : Prop where
  registered : w.Registered
  partitioned : w.objects.Partitioned
  order : w.basin.sources = made.dedup.filter fun id => (w.source? id).isSome
  complete : ∀ id, (w.source? id).isSome → id ∈ made

theorem listed_new (size : UInt32) : (new size).Listed [] where
  registered := registered_onGround _
  partitioned := Table.partitioned_empty
  order := rfl
  complete _ hid := absurd hid (by simp [source?, new, onGround, Table.getAs?, Table.get?,
    Table.empty, Table.lookup])

theorem Listed.of_eq (hw : w.Listed made) (hv : v.Registered) (hobjects : v.objects = w.objects)
    (hsources : v.basin.sources = w.basin.sources) : v.Listed made := by
  have hsource : v.source? = w.source? := by
    funext id
    rw [source?, source?, hobjects]
  refine ⟨hv, ?_, ?_, ?_⟩
  · rw [hobjects]
    exact hw.partitioned
  · rw [hsources, hsource]
    exact hw.order
  · rw [hsource]
    exact hw.complete

theorem Listed.wait (hw : w.Listed made) : w.wait.Listed made :=
  hw.of_eq hw.registered.wait rfl rfl

theorem Listed.upkeep (hw : w.Listed made) : w.upkeep.Listed made :=
  hw.of_eq hw.registered.upkeep rfl (sources_upkeep hw.registered)

theorem Listed.mem_sources (hw : w.Listed made) {id : ObjectId} :
    id ∈ w.basin.sources ↔ (w.source? id).isSome := by
  rw [hw.order, List.mem_filter, List.mem_dedup]
  exact and_iff_right_of_imp (hw.complete id)

theorem Listed.nodup (hw : w.Listed made) : w.basin.sources.Nodup := by
  rw [hw.order]
  exact made.nodup_dedup.filter _

theorem Listed.append_nil (hw : w.Listed made) : w.Listed (made ++ []) := by
  rwa [List.append_nil]

theorem source?_eq_none {id : ObjectId} (hnone : w.objects.get? id = none) :
    w.source? id = none := by
  rw [source?, Table.getAs?, hnone]
  rfl

theorem Listed.create {id new : ObjectId} {make : ObjectId → Source} {objects : Table Entity}
    (hw : w.Listed made) (hident : ∀ id, (make id).id = id)
    (hnew : w.objects.createAt id (fun id => .source (make id)) = .ok (new, objects))
    (hv : { w with objects, basin := w.basin.addSource new }.Registered) :
    { w with objects, basin := w.basin.addSource new }.Listed (made ++ [new]) := by
  have hnone : w.source? new = none := source?_eq_none (hw.partitioned.get?_made hnew)
  have hfresh : new ∉ w.basin.sources := by
    rw [hw.mem_sources, hnone]
    exact Bool.false_ne_true
  have hsource (i : ObjectId) :
      ({ w with objects, basin := w.basin.addSource new }.source? i).isSome =
        (decide (i = new) || (w.source? i).isSome) := by
    rw [source?, Table.getAs?, Table.get?_createAt hnew i]
    split
    · rename_i hi
      simp [hi, Entity.source?]
    · rename_i hi
      simp [hi, source?, Table.getAs?]
  have hknown (i : ObjectId) : Identified.ident (Entity.source (make i)) = i := hident i
  refine ⟨hv, hw.partitioned.createAt hknown hnew, ?_, ?_⟩
  · change (if new ∈ w.basin.sources then _ else _) = _
    rw [if_neg hfresh, hw.order, dedup_concat, List.filter_append, List.filter_filter]
    simp only [hsource]
    congr 1
    · apply List.filter_congr
      intro i _
      rcases eq_or_ne i new with rfl | hi
      · simp [hnone]
      · simp [hi]
    · simp
  · intro i hi
    rw [hsource, Bool.or_eq_true, decide_eq_true_iff] at hi
    rw [List.mem_append, List.mem_singleton]
    exact hi.symm.imp_left (hw.complete i)

theorem Listed.update {id : ObjectId} {f : Source → Source} (hw : w.Listed made)
    (hident : ∀ s, (f s).id = s.id)
    (hv : { w with objects := w.objects.update id (Entity.mapSource f), basin := w.basin.invalidate
      }.Registered) :
    { w with objects := w.objects.update id (Entity.mapSource f), basin := w.basin.invalidate
      }.Listed made := by
  have hsource (i : ObjectId) :
      ((w.objects.update id (Entity.mapSource f)).getAs? Entity.source? i).isSome =
        (w.source? i).isSome := by
    rw [Table.source?_update_mapSource]
    split
    · exact Option.isSome_map
    · rfl
  refine ⟨hv, hw.partitioned.update (Entity.ident_mapSource hident), ?_, ?_⟩
  · rw [show w.basin.invalidate.sources = w.basin.sources from rfl, hw.order]
    exact List.filter_congr fun i _ => (hsource i).symm
  · intro i hi
    exact hw.complete i ((hsource i).symm.trans hi)

theorem Listed.destroy (hw : w.Listed made) (id : ObjectId)
    (hv : { w with basin := w.basin.removeSource id, objects := (w.objects.kill id).2
      }.Registered) :
    { w with basin := w.basin.removeSource id, objects := (w.objects.kill id).2
      }.Listed made := by
  have hsource (i : ObjectId) :
      ((w.objects.kill id).2.getAs? Entity.source? i).isSome =
        (decide (i ≠ id) && (w.source? i).isSome) := by
    rw [Table.getAs?, Table.get?_kill hw.partitioned.descending]
    split
    · rename_i hi
      simp [hi]
    · rename_i hi
      simp [hi, source?, Table.getAs?]
  refine ⟨hv, hw.partitioned.kill id, ?_, ?_⟩
  · change w.basin.sources.filter _ = _
    rw [hw.order, List.filter_filter]
    exact List.filter_congr fun i _ => (hsource i).symm
  · intro i hi
    exact hw.complete i (Bool.and_eq_true_iff.mp ((hsource i).symm.trans hi)).2

theorem Listed.change {d : Delta} (hw : w.Listed made) (h : w.Change d v) :
    v.Listed (made ++ (Outcome.success d).created?.toList) := by
  have hv : v.Registered := hw.registered.change h
  cases h with
  | painted hfoot hrule => exact (hw.of_eq hv rfl rfl).append_nil
  | raised hfoot => exact (hw.of_eq hv rfl rfl).append_nil
  | created hident hmade => exact hw.create hident hmade hv
  | updated hident hlive => exact (hw.update hident hv).append_nil
  | destroyed hlive => exact (hw.destroy _ hv).append_nil
  | levelled level => exact (hw.of_eq hv rfl rfl).append_nil
  | drained => exact (hw.of_eq hv rfl rfl).append_nil

theorem Listed.met (hw : w.Listed made) (op : Operation) : (w.met op).Listed made := by
  rw [World.met]
  split
  · exact hw.wait
  · exact hw

theorem Listed.execute (hw : w.Listed made) (op : Operation) :
    (w.execute op).2.Listed (made ++ (w.execute op).1.created?.toList) := by
  rw [execute_eq]
  split
  · exact (hw.met op).append_nil
  · rename_i d next happly
    exact (hw.met op).change (apply_change happly)

theorem Listed.moveAll (hw : w.Listed made) (moves : List Move) :
    (w.moveAll moves).Listed (made ++ w.created moves) := by
  induction moves generalizing made w with
  | nil => exact hw.append_nil
  | cons m moves ih =>
      cases m with
      | execute op =>
          rw [created, ← List.append_assoc]
          exact ih (hw.execute op)
      | upkeep => exact ih hw.upkeep
      | start => exact ih (hw.of_eq hw.registered.start rfl rfl)
      | publish => exact ih (hw.of_eq hw.registered.publish rfl w.basin.sources_publish)
      | finish => exact ih (hw.of_eq hw.registered.finish rfl w.basin.sources_finish)
      | wait => exact ih hw.wait

theorem get?_of_source? {id : ObjectId} {s : Source} (h : w.source? id = some s) :
    w.objects.get? id = some (.source s) := by
  obtain ⟨e, hget, he⟩ := Option.bind_eq_some_iff.mp h
  cases e with
  | source s' => rwa [← Option.some.inj he]
  | marker i => contradiction

theorem Listed.ids_current (hw : w.Listed made) :
    (w.basin.sources.filterMap w.source?).map Source.id = w.basin.sources := by
  have hlive : ∀ id ∈ w.basin.sources, (w.source? id).map Source.id = some id := by
    intro id hid
    obtain ⟨s, hs⟩ := Option.isSome_iff_exists.mp (hw.mem_sources.mp hid)
    rw [hs]
    exact congrArg some (hw.partitioned.known id _ (get?_of_source? hs))
  rw [List.map_filterMap, List.filterMap_congr hlive, List.filterMap_some]

/-- Whatever has happened to a new world, its fluid lists the sources that live, each of them once
and in the order in which they were last made. Unless the list is marked as stale, the step that is
started next works with these sources as they are now; after upkeep it always does. -/
theorem moveAll_lists_sources (size : UInt32) (moves : List Move) :
    let w := (new size).moveAll moves
    let current := w.basin.sources.filterMap w.source?
    let next : Job := ⟨current.map (Reach.ofSource · size), w.basin.ocean⟩
    w.basin.sources.Nodup ∧
    (∀ id, id ∈ w.basin.sources ↔ (w.source? id).isSome) ∧
    w.basin.sources = ((new size).created moves).dedup.filter (fun id => (w.source? id).isSome) ∧
    current.map Source.id = w.basin.sources ∧
    (w.basin.stale = false → w.basin.start.waiting = w.basin.waiting ++ [next]) ∧
    w.upkeep.basin.start.waiting = w.upkeep.basin.waiting ++ [next] := by
  intro w current next
  have hw : w.Listed ((new size).created moves) := (listed_new size).moveAll moves
  have hsize : w.basin.size = size :=
    (moveAll_keeps (fun _ m h => h.move m) (shared_new size) moves).back
  have hnext : next = ⟨w.reachesNow, w.basin.ocean⟩ := by
    rw [reachesNow, hsize]
  refine ⟨hw.nodup, fun _ => hw.mem_sources, hw.order, hw.ids_current, ?_, ?_⟩
  · intro hfresh
    rw [hnext, ← hw.registered.fresh hfresh]
    rfl
  · rw [hnext, ← reaches_upkeep hw.registered, ← ocean_upkeep]
    rfl

/-- A source that is destroyed and made anew comes after those that were made in between. -/
example :
    let make (id : UInt64) : Move := .execute (.sourceCreate ⟨id⟩ ⟨0, 0⟩ 1 1 1)
    ((new 2).moveAll [make 5, make 7, .execute (.sourceDestroy ⟨5⟩), make 5]).basin.sources =
      [⟨7⟩, ⟨5⟩] := by
  decide +kernel

end World

end Terrarium
