import Terrarium.Proofs.SourceRegistry

namespace Terrarium.World

/-- What happens to a world. -/
inductive Move where
  | execute (op : Operation)
  | upkeep
  | start
  | publish
  | finish
  | wait

def move (w : World) : Move → World
  | .execute op => (w.execute op).2
  | .upkeep => w.upkeep
  | .start => { w with basin := w.basin.start }
  | .publish => { w with basin := w.basin.publish }
  | .finish => { w with basin := w.basin.finish }
  | .wait => w.wait

/-- The world after moves in turn. -/
def moveAll (w : World) (moves : List Move) : World := moves.foldl move w

variable {w : World}

theorem moveAll_keeps_of_mem {P : World → Prop} {moves : List Move}
    (hmove : ∀ m ∈ moves, ∀ w, P w → P (move w m)) (hw : P w) : P (w.moveAll moves) := by
  induction moves generalizing w with
  | nil => exact hw
  | cons m moves ih =>
      obtain ⟨hfirst, hrest⟩ := List.forall_mem_cons.mp hmove
      exact ih hrest (hfirst w hw)

theorem moveAll_keeps {P : World → Prop} (hmove : ∀ w m, P w → P (move w m)) (hw : P w)
    (moves : List Move) : P (w.moveAll moves) :=
  moveAll_keeps_of_mem (fun m _ w => hmove w m) hw

/-- A property of the objects is kept by all moves if it is kept when sources are made, changed and
killed. -/
theorem moveAll_keeps_objects {P : Table Entity → Prop}
    (hcreated : ∀ (t t' : Table Entity) (id made : ObjectId) (make : ObjectId → Source), P t →
      (∀ id, (make id).id = id) →
      t.createAt id (fun id => .source (make id)) = .ok (made, t') → P t')
    (hupdated : ∀ t id f, P t → (∀ s, (f s).id = s.id) → P (t.update id (Entity.mapSource f)))
    (hkilled : ∀ t id, P t → P (t.kill id).2) (hw : P w.objects) (moves : List Move) :
    P (w.moveAll moves).objects := by
  have hchange (v : World) (d : Delta) (v' : World) (hv : P v.objects) (h : v.Change d v') :
      P v'.objects := by
    cases h with
    | painted hfoot hrule => exact hv
    | raised hfoot => exact hv
    | created hident hmade => exact hcreated _ _ _ _ _ hv hident hmade
    | updated hident hlive => exact hupdated _ _ _ hv hident
    | destroyed hlive => exact hkilled _ _ hv
    | levelled level => exact hv
    | drained => exact hv
  apply moveAll_keeps (P := fun v => P v.objects) _ hw moves
  intro v m hv
  cases m with
  | execute op => exact execute_keeps (P := fun v => P v.objects) (fun _ h => h) hchange hv op
  | _ => exact hv

theorem counted_upkeep (h : w.basin.finished ≤ w.basin.started) :
    w.upkeep.basin.finished ≤ w.upkeep.basin.started := by
  have hgrounded : w.grounded.finished ≤ w.grounded.started := by
    rw [grounded]
    split
    · exact h
    · rw [Basin.groundUpdated]
      split
      · exact h
      · exact Nat.le_refl _
  rw [upkeep_eq]
  dsimp only
  split <;> exact hgrounded

/-- No more steps are counted as finished than were started. -/
theorem counted_move (h : w.basin.finished ≤ w.basin.started) (m : Move) :
    (w.move m).basin.finished ≤ (w.move m).basin.started := by
  cases m with
  | execute op =>
      apply execute_keeps (P := fun v => v.basin.finished ≤ v.basin.started) _ _ h op
      · intro v hv
        exact Nat.le_refl _
      · intro v d v' hv hchange
        cases hchange with
        | raised hfoot => exact Nat.le_refl _
        | drained => exact Nat.le_refl _
        | _ => exact hv
  | upkeep => exact counted_upkeep h
  | start => exact Nat.le_succ_of_le h
  | publish =>
      change w.basin.publish.finished ≤ w.basin.publish.started
      rw [Basin.publish]
      split <;> exact h
  | finish =>
      change w.basin.finish.finished ≤ w.basin.finish.started
      rw [Basin.finish]
      split
      · rename_i hlt
        exact Nat.lt_of_le_of_lt (Nat.le_add_right _ _) hlt
      · exact h
  | wait => exact Nat.le_refl _

/-- Whether a move starts a step of the fluid. -/
def Move.isStart : Move → Bool
  | .start => true
  | _ => false

theorem started_move (w : World) (m : Move) :
    (w.move m).basin.started = w.basin.started + if m.isStart then 1 else 0 := by
  cases m with
  | execute op => exact w.started_execute op
  | upkeep => exact w.started_upkeep
  | publish =>
      change w.basin.publish.started = _
      rw [Basin.publish]
      split <;> rfl
  | finish =>
      change w.basin.finish.started = _
      rw [Basin.finish]
      split <;> rfl
  | _ => rfl

theorem started_moveAll (w : World) (moves : List Move) :
    (w.moveAll moves).basin.started = w.basin.started + moves.countP Move.isStart := by
  induction moves generalizing w with
  | nil => rfl
  | cons m moves ih =>
      rw [moveAll, List.foldl_cons, ← moveAll, ih, started_move, List.countP_cons, Nat.add_assoc,
        Nat.add_comm (ite _ _ _)]

end Terrarium.World
