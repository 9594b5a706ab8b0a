import Terrarium.Proofs.GridCells
import Terrarium.Proofs.GridSize
import Terrarium.Proofs.RectCells
import Terrarium.Proofs.SourceRegistry
import Terrarium.Proofs.WorldMoves

/-!
The fluid's copy of the ground. Every cell of the fluid knows the height of the ground below it.
What is written to the ground is announced, and outside of what is announced the copy is true: each
way to write keeps this, and upkeep, which copies what was announced, makes it true everywhere.
A step of the fluid publishes the copy that it found.
-/
namespace Terrarium

namespace Fluid

/-- The ground as the cells of a fluid know it. -/
def bed (g : Grid Cell) : Grid Float32 := g.map Cell.ground

theorem get?_bed (g : Grid Cell) (x y : Nat) : (bed g).get? x y = (g.get? x y).map Cell.ground :=
  g.get?_map Cell.ground x y

theorem bed_eq {g h : Grid Cell} (hsize : g.size = h.size)
    (hground : ∀ x y, (g.get? x y).map Cell.ground = (h.get? x y).map Cell.ground) :
    bed g = bed h := by
  refine Grid.ext_get? (g := bed g) (h := bed h) hsize fun x y => ?_
  rw [get?_bed, get?_bed, hground]

theorem map_ground {f : Cell → Cell} (hf : ∀ c, (f c).ground = c.ground) (c : Option Cell) :
    (c.map f).map Cell.ground = c.map Cell.ground := by
  rw [Option.map_map]
  exact congrArg (fun f => c.map f) (funext hf)

theorem bed_modify (g : Grid Cell) (x y : Nat) {f : Cell → Cell}
    (hf : ∀ c, (f c).ground = c.ground) : bed (g.modify x y f) = bed g := by
  refine bed_eq (g.size_modify x y f) fun i j => ?_
  rw [Grid.get?_modify]
  split
  · exact map_ground hf _
  · rfl

theorem bed_map (g : Grid Cell) {f : Cell → Cell} (hf : ∀ c, (f c).ground = c.ground) :
    bed (g.map f) = bed g := by
  refine bed_eq (g.size_map f) fun i j => ?_
  rw [Grid.get?_map]
  exact map_ground hf _

theorem bed_mapCells (g : Grid Cell) {f : Nat → Nat → Cell → Cell}
    (hf : ∀ x y c, (f x y c).ground = c.ground) : bed (g.mapCells f) = bed g := by
  refine bed_eq rfl fun i j => ?_
  rw [Grid.get?_mapCells]
  exact map_ground (hf i j) _

theorem bed_foldl {β : Type} {f : Grid Cell → β → Grid Cell} (hf : ∀ g b, bed (f g b) = bed g)
    (g : Grid Cell) (bs : List β) : bed (bs.foldl f g) = bed g := by
  induction bs generalizing g with
  | nil => rfl
  | cons b bs ih => rw [List.foldl_cons, ih, hf]

theorem bed_dry (m : HeightMap) : bed (dry m) = m.heights := by
  refine Grid.ext_get? rfl fun x y => ?_
  rw [get?_bed, dry, Grid.get?_map, Option.map_map]
  exact Option.map_id'

theorem bed_pourCell (r : Reach) (state : Grid Cell × Float32) (p : Nat × Nat) :
    bed (pourCell r state p).1 = bed state.1 := by
  rw [pourCell]
  split
  · rfl
  · split
    · rfl
    · dsimp only
      split
      · rfl
      · exact bed_modify state.1 p.1 p.2 fun _ => rfl

theorem bed_pour (g : Grid Cell) (r : Reach) : bed (pour g r) = bed g := by
  suffices h : ∀ (cells : List (Nat × Nat)) (state : Grid Cell × Float32),
      bed (cells.foldl (pourCell r) state).1 = bed state.1 from h r.rect.cells (g, r.capacity)
  intro cells
  induction cells with
  | nil => exact fun _ => rfl
  | cons p cells ih =>
      intro state
      rw [List.foldl_cons, ih, bed_pourCell]

theorem ground_flood (ocean : Float32) (c : Cell) : (flood ocean c).ground = c.ground := by
  rw [flood]
  split <;> rfl

theorem ground_settleCell (c : Cell) : (settleCell c).ground = c.ground := by
  rw [settleCell]
  split <;> rfl

theorem bed_floodBorder (g : Grid Cell) (ocean : Float32) : bed (floodBorder g ocean) = bed g := by
  apply bed_mapCells
  intro x y c
  split
  · exact ground_flood ocean c
  · rfl

theorem bed_step (g : Grid Cell) (job : Job) : bed (step g job) = bed g := by
  rw [step, bed_map _ ground_settleCell, bed_floodBorder, bed_foldl bed_pour]

theorem bed_paint_raiseRule (b : Brush) (r : Rect) (g : Grid Cell) :
    bed (b.paint r raiseRule g) = bed g := by
  apply bed_foldl
  intro g p
  cases b.weight? p.1 p.2 with
  | none => rfl
  | some d => exact bed_modify g p.1 p.2 fun _ => rfl

end Fluid

theorem HeightMap.heightAt_isSome {m : HeightMap} {x y : Nat} :
    (m.heightAt x y).isSome ↔ x < m.size.toNat ∧ y < m.size.toNat :=
  Grid.get?_isSome

namespace Basin

open Fluid

@[simp] theorem bed_wait (b : Basin) : bed b.wait.back = bed b.back :=
  bed_foldl bed_step b.back b.waiting

theorem bed_write (b : Basin) {f : Grid Cell → Grid Cell} (hf : ∀ g, bed (f g) = bed g) :
    bed (b.write f).back = bed b.back :=
  (hf b.wait.back).trans b.bed_wait

@[simp] theorem bed_reset (b : Basin) : bed b.reset.back = bed b.back :=
  b.bed_write fun g => bed_map g fun _ => rfl

@[simp] theorem bed_publish (b : Basin) : bed b.publish.back = bed b.back := by
  rw [publish]
  cases b.waiting with
  | nil => rfl
  | cons job rest => exact bed_step b.back job

@[simp] theorem bed_finish (b : Basin) : bed b.finish.back = bed b.back := by
  rw [finish]
  split <;> rfl

/-- The height that a cell of the ground has is copied into the cell of the fluid above it. -/
def copyCell (m : HeightMap) (g : Grid Cell) (p : Nat × Nat) : Grid Cell :=
  match m.heightAt p.1 p.2 with
  | some h => g.modify p.1 p.2 fun c => { c with ground := h }
  | none => g

theorem size_copyCell (m : HeightMap) (g : Grid Cell) (p : Nat × Nat) :
    (copyCell m g p).size = g.size := by
  rw [copyCell]
  split
  · exact g.size_modify p.1 p.2 _
  · rfl

theorem get?_bed_copyCell {m : HeightMap} {g : Grid Cell} (hsize : g.size = m.size)
    (p : Nat × Nat) (x y : Nat) :
    (bed (copyCell m g p)).get? x y =
      if (x, y) = p then m.heightAt x y else (bed g).get? x y := by
  rw [get?_bed, get?_bed, copyCell]
  split
  · rename_i h hheight
    rw [Grid.get?_modify]
    split
    · rename_i hxy
      obtain ⟨rfl, rfl⟩ := hxy
      have hcell : (g.get? p.1 p.2).isSome := by
        rw [Grid.get?_isSome, hsize, ← HeightMap.heightAt_isSome, hheight]
        rfl
      obtain ⟨c, hc⟩ := Option.isSome_iff_exists.mp hcell
      rw [if_pos rfl, hheight, hc]
      rfl
    · rename_i hxy
      rw [if_neg]
      rintro rfl
      exact hxy ⟨rfl, rfl⟩
  · rename_i hheight
    split
    · rename_i hp
      subst hp
      rw [Grid.get?_eq_none, hheight]
      · rfl
      · rw [hsize, ← HeightMap.heightAt_isSome, hheight]
        exact Bool.false_ne_true
    · rfl

theorem get?_bed_copyCells {m : HeightMap} {g : Grid Cell} (hsize : g.size = m.size)
    (cells : List (Nat × Nat)) (x y : Nat) :
    (bed (cells.foldl (copyCell m) g)).get? x y =
      if (x, y) ∈ cells then m.heightAt x y else (bed g).get? x y := by
  induction cells generalizing g with
  | nil => rfl
  | cons p cells ih =>
      rw [List.foldl_cons, ih ((size_copyCell m g p).trans hsize), get?_bed_copyCell hsize]
      by_cases hp : (x, y) = p <;> by_cases hmem : (x, y) ∈ cells <;> simp [hp, hmem]

theorem get?_bed_groundUpdated {b : Basin} {m : HeightMap} (hsize : b.size = m.size) (r : Rect)
    (x y : Nat) :
    (bed (b.groundUpdated r m).back).get? x y =
      if (x, y) ∈ (r.clipped m.size).cells then m.heightAt x y else (bed b.back).get? x y := by
  have hmin : min b.size m.size = m.size := by
    rw [hsize]
    exact UInt32.toNat_inj.mp (by rw [Rect.toNat_min, Nat.min_self])
  rw [groundUpdated, hmin]
  split
  · rename_i hempty
    rw [if_neg (Rect.not_mem_cells_of_isEmpty hempty)]
  · have hback : b.wait.back.size = m.size := b.size_wait.trans hsize
    exact (get?_bed_copyCells hback _ x y).trans (by rw [bed_wait])

end Basin

namespace GroundRule

variable {rule : Grid Float32 → Nat → Nat → Float32 → Grid Float32}

theorem size_eq (h : GroundRule rule) (g : Grid Float32) (x y : Nat) (d : Float32) :
    (rule g x y d).size = g.size := by
  cases h with
  | own rule => exact g.size_modify x y _
  | smooth =>
      rw [HeightMap.smoothRule]
      split
      · rfl
      · exact g.size_modify x y _

theorem get?_of_ne (h : GroundRule rule) (g : Grid Float32) {x y i j : Nat} (d : Float32)
    (hne : ¬(i = x ∧ j = y)) : (rule g x y d).get? i j = g.get? i j := by
  cases h with
  | own rule => rw [HeightMap.ownRule, Grid.get?_modify, if_neg hne]
  | smooth =>
      rw [HeightMap.smoothRule]
      split
      · rfl
      · rw [Grid.get?_modify, if_neg hne]

theorem get?_paint (h : GroundRule rule) (b : Brush) (r : Rect) (g : Grid Float32) {x y : Nat}
    (hmem : (x, y) ∉ r.cells) : (b.paint r rule g).get? x y = g.get? x y := by
  apply Grid.get?_foldl_of_not_mem _ g hmem
  intro g p hne
  cases b.weight? p.1 p.2 with
  | none => rfl
  | some d =>
      apply h.get?_of_ne
      rintro ⟨rfl, rfl⟩
      exact hne rfl

end GroundRule

namespace World

open Fluid

/-- Ground and fluid share a size, and wherever no change of the ground is announced, the fluid
knows the height that the ground has. -/
structure Shared (size : UInt32) (w : World) : Prop where
  ground : w.ground.size = size
  back : w.basin.size = size
  front : w.basin.front.size = size
  dirty : w.ground.dirty.Within size
  agree : ∀ x y, (x, y) ∉ w.ground.dirty.cells →
    (bed w.basin.back).get? x y = w.ground.heightAt x y

theorem shared_new (size : UInt32) : (new size).Shared size where
  ground := rfl
  back := rfl
  front := rfl
  dirty := Rect.within_empty size
  agree x y _ := by
    change (bed (dry (HeightMap.new size))).get? x y = _
    rw [bed_dry]
    rfl

variable {size : UInt32} {v w : World}

theorem Shared.of_bed (hw : w.Shared size) (hground : v.ground = w.ground)
    (hbed : bed v.basin.back = bed w.basin.back) (hfront : v.basin.front.size = size) :
    v.Shared size where
  ground := hground ▸ hw.ground
  back := (congrArg Grid.size hbed).trans hw.back
  front := hfront
  dirty := hground ▸ hw.dirty
  agree := by
    rw [hground, hbed]
    exact hw.agree

/-- New heights that differ from the old ones only in a rectangle, once it is announced, are
outside of what the fluid has to know. -/
theorem Shared.announce (hw : w.Shared size) {heights : Grid Float32} (r : Rect)
    (hsize : heights.size = w.ground.size)
    (hsame : ∀ x y, (x, y) ∉ r.cells → heights.get? x y = w.ground.heightAt x y) :
    { w with ground := { w.ground with heights }.announce r }.Shared size where
  ground := hsize.trans hw.ground
  back := hw.back
  front := hw.front
  dirty := by
    have hclipped : (r.clipped heights.size).Within size := by
      rw [hsize, hw.ground]
      exact r.within_clipped size
    exact hw.dirty.union hclipped
  agree x y hxy := by
    have hdirty : (x, y) ∉ w.ground.dirty.cells := fun h => hxy (Rect.mem_cells_union_left h)
    have hclipped : (x, y) ∉ (r.clipped heights.size).cells := fun h =>
      hxy (Rect.mem_cells_union_right h)
    rw [hw.agree x y hdirty]
    by_cases hr : (x, y) ∈ r.cells
    · -- What is painted off the grid is cut off when it is announced.
      have hcell : ¬(x < heights.size.toNat ∧ y < heights.size.toNat) := fun h =>
        hclipped (Rect.mem_cells_clipped.mpr ⟨hr, h⟩)
      have hnone : heights.get? x y = none := Grid.get?_eq_none hcell
      rw [hsize] at hcell
      exact (Grid.get?_eq_none hcell).trans hnone.symm
    · exact (hsame x y hr).symm

theorem front_wait (b : Basin) (hback : b.size = size) (hfront : b.front.size = size) :
    b.wait.front.size = size := by
  rw [Basin.wait]
  dsimp only
  split
  · exact hfront
  · exact b.size_wait.trans hback

theorem Shared.wait (hw : w.Shared size) : w.wait.Shared size :=
  hw.of_bed rfl w.basin.bed_wait (front_wait w.basin hw.back hw.front)

theorem bed_change {d : Delta} (h : w.Change d v) : bed v.basin.back = bed w.basin.back := by
  cases h with
  | @raised b r hfoot => exact w.basin.bed_write fun g => bed_paint_raiseRule b r g
  | drained => exact w.basin.bed_reset
  | _ => rfl

theorem bed_execute (w : World) (op : Operation) :
    bed (w.execute op).2.basin.back = bed w.basin.back :=
  execute_keeps (P := fun v => bed v.basin.back = bed w.basin.back)
    (fun v hv => v.basin.bed_wait.trans hv) (fun _ _ _ hv h => (bed_change h).trans hv) rfl op

theorem Shared.change {d : Delta} (hw : w.Shared size) (h : w.Change d v) : v.Shared size := by
  have hbed := bed_change h
  cases h with
  | @painted b r rule hfoot hrule =>
      exact hw.announce r (b.size_paint r hrule.size_eq w.ground.heights) fun x y hxy =>
        hrule.get?_paint b r w.ground.heights hxy
  | raised hfoot => exact hw.of_bed rfl hbed hw.wait.front
  | drained => exact hw.of_bed rfl hbed hw.wait.front
  | _ => exact hw.of_bed rfl hbed hw.front

theorem Shared.execute (hw : w.Shared size) (op : Operation) : (w.execute op).2.Shared size :=
  execute_keeps (fun _ h => h.wait) (fun _ _ _ h => h.change) hw op

theorem back_upkeep (w : World) : w.upkeep.basin.back = w.grounded.back := by
  rw [upkeep_eq]
  dsimp only
  split <;> rfl

theorem front_upkeep (w : World) : w.upkeep.basin.front = w.grounded.front := by
  rw [upkeep_eq]
  dsimp only
  split <;> rfl

theorem Shared.bed_upkeep (hw : w.Shared size) : bed w.upkeep.basin.back = w.ground.heights := by
  have hsize : w.basin.size = w.ground.size := hw.back.trans hw.ground.symm
  rw [back_upkeep]
  refine Grid.ext_get? (w.size_grounded.trans hsize) fun x y => ?_
  rw [grounded]
  split
  · rename_i hempty
    exact hw.agree x y (Rect.not_mem_cells_of_isEmpty hempty)
  · rw [Basin.get?_bed_groundUpdated (m := w.ground.takeDirty.2) hsize]
    split
    · rfl
    · rename_i hxy
      by_cases hcell : x < w.ground.size.toNat ∧ y < w.ground.size.toNat
      · apply hw.agree
        intro hdirty
        exact hxy (Rect.mem_cells_clipped.mpr ⟨hdirty, hcell⟩)
      · have hnone : w.ground.heights.get? x y = none := Grid.get?_eq_none hcell
        rw [← hsize] at hcell
        exact (Grid.get?_eq_none (g := bed w.basin.back) hcell).trans hnone.symm

theorem Shared.upkeep (hw : w.Shared size) : w.upkeep.Shared size where
  ground := hw.ground
  back := w.size_upkeep.trans hw.back
  front := by
    rw [front_upkeep, grounded]
    split
    · exact hw.front
    · rw [Basin.groundUpdated]
      split
      · exact hw.front
      · exact hw.wait.front
  dirty := Rect.within_empty size
  agree x y _ := by
    rw [hw.bed_upkeep]
    rfl

theorem Shared.publish (hw : w.Shared size) :
    { w with basin := w.basin.publish }.Shared size := by
  refine hw.of_bed rfl w.basin.bed_publish ?_
  change w.basin.publish.front.size = size
  rw [Basin.publish]
  split
  · exact hw.front
  · exact (size_step w.basin.back _).trans hw.back

theorem Shared.finish (hw : w.Shared size) : { w with basin := w.basin.finish }.Shared size := by
  refine hw.of_bed rfl w.basin.bed_finish ?_
  change w.basin.finish.front.size = size
  rw [Basin.finish]
  split <;> exact hw.front

theorem Shared.move (hw : w.Shared size) (m : Move) : (w.move m).Shared size := by
  cases m with
  | execute op => exact hw.execute op
  | upkeep => exact hw.upkeep
  | start => exact hw.of_bed rfl rfl hw.front
  | publish => exact hw.publish
  | finish => exact hw.finish
  | wait => exact hw.wait

theorem Shared.setHeight (hw : w.Shared size) (x y : UInt32) (h : Float32) :
    { w with ground := w.ground.setHeight x y h }.Shared size := by
  rw [HeightMap.setHeight]
  split
  · rename_i hcell
    apply hw.announce (Rect.cell x y) (w.ground.heights.size_modify x.toNat y.toNat _)
    intro i j hij
    rw [Rect.mem_cells_cell hcell.1 hcell.2] at hij
    exact (Grid.get?_modify ..).trans (if_neg hij)
  · exact hw

/-- What happens to a world whose heights are also set one by one. -/
inductive Happening where
  | move (m : Move)
  | setHeight (x y : UInt32) (h : Float32)

def happen (w : World) : Happening → World
  | .move m => w.move m
  | .setHeight x y h => { w with ground := w.ground.setHeight x y h }

/-- The world after happenings in turn. -/
def happenAll (w : World) (happenings : List Happening) : World := happenings.foldl happen w

theorem Shared.happen (hw : w.Shared size) (e : Happening) : (w.happen e).Shared size := by
  cases e with
  | move m => exact hw.move m
  | setHeight x y h => exact hw.setHeight x y h

theorem Shared.happenAll (hw : w.Shared size) (past : List Happening) :
    (w.happenAll past).Shared size := by
  induction past generalizing w with
  | nil => exact hw
  | cons e past ih => exact ih (hw.happen e)

theorem Shared.bed_happen (hw : w.Shared size) (e : Happening) :
    bed (w.happen e).basin.back = bed w.basin.back ∨
      bed (w.happen e).basin.back = (w.happen e).ground.heights := by
  cases e with
  | setHeight x y h => exact .inl rfl
  | move m =>
      cases m with
      | execute op => exact .inl (w.bed_execute op)
      | upkeep => exact .inr hw.bed_upkeep
      | start => exact .inl rfl
      | publish => exact .inl w.basin.bed_publish
      | finish => exact .inl w.basin.bed_finish
      | wait => exact .inl w.basin.bed_wait

theorem Shared.bed_happenAll (hw : w.Shared size) (hbed : bed w.basin.back = w.ground.heights)
    {quiet : List Happening}
    (hquiet : ∀ n, (w.happenAll (quiet.take n)).ground.heights = w.ground.heights) :
    bed (w.happenAll quiet).basin.back = (w.happenAll quiet).ground.heights := by
  induction quiet generalizing w with
  | nil => exact hbed
  | cons e quiet ih =>
      have hsame : (w.happen e).ground.heights = w.ground.heights := hquiet 1
      apply ih (hw.happen e)
      · rcases hw.bed_happen e with h | h
        · rw [h, hbed, hsame]
        · exact h
      · intro n
        rw [hsame]
        exact hquiet (n + 1)

end World

namespace Basin

open Fluid

/-- The bed that a step will publish, or has published if it is the last one worked off. Steps are
numbered from one on as they are started. -/
structure Publishes (bedrock : Grid Float32) (step : Nat) (b : Basin) : Prop where
  started : step ≤ b.started
  ahead : b.started < step + b.waiting.length → bed b.back = bedrock
  done : b.started = step + b.waiting.length → bed b.front = bedrock

variable {bedrock : Grid Float32} {step : Nat} {a b : Basin}

theorem publishes_start (b : Basin) : b.start.Publishes (bed b.back) (b.started + 1) where
  started := Nat.le_refl _
  ahead _ := rfl
  done h := by
    simp only [start, List.length_append, List.length_singleton] at h
    omega

theorem Publishes.of_eq (hb : b.Publishes bedrock step) (hstarted : a.started = b.started)
    (hwaiting : a.waiting = b.waiting) (hback : bed a.back = bed b.back)
    (hfront : a.front = b.front) : a.Publishes bedrock step where
  started := hstarted ▸ hb.started
  ahead := by
    rw [hstarted, hwaiting, hback]
    exact hb.ahead
  done := by
    rw [hstarted, hwaiting, hfront]
    exact hb.done

theorem Publishes.start (hb : b.Publishes bedrock step) : b.start.Publishes bedrock step where
  started := Nat.le_succ_of_le hb.started
  ahead h := by
    simp only [Basin.start, List.length_append, List.length_singleton] at h
    exact hb.ahead (by omega)
  done h := by
    simp only [Basin.start, List.length_append, List.length_singleton] at h
    exact hb.done (by omega)

theorem Publishes.publish (hb : b.Publishes bedrock step) : b.publish.Publishes bedrock step := by
  rw [Basin.publish]
  split
  · exact hb
  · rename_i job rest hwaiting
    have hahead (h : b.started < step + (rest.length + 1)) :
        bed (Fluid.step b.back job) = bedrock := by
      rw [bed_step]
      apply hb.ahead
      rwa [hwaiting]
    constructor
    · exact hb.started
    · intro h
      exact hahead (Nat.lt_succ_of_lt h)
    · intro h
      exact hahead (Nat.lt_succ_of_le (Nat.le_of_eq h))

theorem Publishes.wait (hb : b.Publishes bedrock step) : b.wait.Publishes bedrock step := by
  constructor
  · exact hb.started
  · intro h
    exact absurd hb.started (Nat.not_le_of_lt h)
  · intro h
    change b.started = step at h
    rw [Basin.wait]
    dsimp only
    split
    · rename_i hnone
      apply hb.done
      rw [List.isEmpty_iff.mp hnone]
      exact h
    · rename_i hsome
      have hpos := List.length_pos_iff.mpr (fun hnil => hsome (List.isEmpty_iff.mpr hnil))
      rw [bed_foldl bed_step]
      apply hb.ahead
      omega

/-- What is written to the back buffer is written after all steps that were started. -/
theorem Publishes.write (hb : b.Publishes bedrock step) (f : Grid Cell → Grid Cell) :
    (b.write f).Publishes bedrock step where
  started := hb.started
  ahead h := absurd hb.started (Nat.not_le_of_lt h)
  done := hb.wait.done

theorem Publishes.finish (hb : b.Publishes bedrock step) : b.finish.Publishes bedrock step := by
  rw [Basin.finish]
  split
  · exact hb.of_eq rfl rfl rfl rfl
  · exact hb

theorem Publishes.groundUpdated (hb : b.Publishes bedrock step) (r : Rect) (m : HeightMap) :
    (b.groundUpdated r m).Publishes bedrock step := by
  rw [Basin.groundUpdated]
  split
  · exact hb
  · exact hb.write _

end Basin

namespace World

open Fluid

variable {bedrock : Grid Float32} {step : Nat} {size : UInt32} {v w : World}

theorem publishes_change {d : Delta} (hw : w.basin.Publishes bedrock step) (h : w.Change d v) :
    v.basin.Publishes bedrock step := by
  cases h with
  | raised hfoot => exact hw.write _
  | drained => exact hw.write fun g => g.map fun c => { c with depth := 0 }
  | _ => exact hw.of_eq rfl rfl rfl rfl

theorem publishes_upkeep (hw : w.basin.Publishes bedrock step) :
    w.upkeep.basin.Publishes bedrock step := by
  have hgrounded : w.grounded.Publishes bedrock step := by
    rw [grounded]
    split
    · exact hw
    · exact hw.groundUpdated _ _
  rw [upkeep_eq]
  dsimp only
  split
  · exact hgrounded.of_eq rfl rfl rfl rfl
  · exact hgrounded

theorem publishes_happen (hw : w.basin.Publishes bedrock step) (e : Happening) :
    (w.happen e).basin.Publishes bedrock step := by
  cases e with
  | setHeight x y h => exact hw
  | move m =>
      cases m with
      | execute op =>
          exact execute_keeps (P := fun v => v.basin.Publishes bedrock step)
            (fun _ h => h.wait) (fun _ _ _ => publishes_change) hw op
      | upkeep => exact publishes_upkeep hw
      | start => exact hw.start
      | publish => exact hw.publish
      | finish => exact hw.finish
      | wait => exact hw.wait

theorem publishes_happenAll (hw : w.basin.Publishes bedrock step) (later : List Happening) :
    (w.happenAll later).basin.Publishes bedrock step := by
  induction later generalizing w with
  | nil => exact hw
  | cons e later ih => exact ih (publishes_happen hw e)

/-- Whatever has happened to a world, ground and fluid are of its size, what is announced of the
ground lies on it, and every other cell of the back buffer knows the height of the ground. Upkeep
leaves nothing announced and a back buffer that knows all heights. While they stay as they are, a
step that is started will show them: the front buffer knows them from when this step has been worked
off until another one is. -/
theorem happenAll_shares_ground (size : UInt32) (past : List Happening) :
    let w := (new size).happenAll past
    (w.ground.size = size ∧ w.basin.size = size ∧ w.basin.front.size = size) ∧
    w.ground.dirty.Within size ∧
    (∀ x y : UInt32, w.ground.dirty.contains x y = false →
      (w.basin.back.get? x.toNat y.toNat).map Cell.ground =
        w.ground.heightAt x.toNat y.toNat) ∧
    w.upkeep.ground.dirty.isEmpty ∧
    w.upkeep.basin.back.map Cell.ground = w.upkeep.ground.heights ∧
    ∀ quiet later : List Happening,
      (∀ n, (w.upkeep.happenAll (quiet.take n)).ground.heights = w.upkeep.ground.heights) →
      let v := w.upkeep.happenAll quiet
      let u := (v.happen (.move .start)).happenAll later
      u.basin.started = v.basin.started + 1 + u.basin.waiting.length →
      u.basin.front.map Cell.ground = v.ground.heights := by
  have hw : ((new size).happenAll past).Shared size := (shared_new size).happenAll past
  refine ⟨⟨hw.ground, hw.back, hw.front⟩, hw.dirty, ?_, rfl, hw.bed_upkeep, ?_⟩
  · intro x y hxy
    rw [← get?_bed]
    apply hw.agree
    rw [Rect.mem_cells_iff_contains, hxy]
    exact Bool.false_ne_true
  · intro quiet later hquiet v u hdone
    have hbed : bed v.basin.back = v.ground.heights :=
      hw.upkeep.bed_happenAll hw.bed_upkeep hquiet
    have hstart : v.basin.start.Publishes v.ground.heights (v.basin.started + 1) :=
      hbed ▸ v.basin.publishes_start
    exact (publishes_happenAll (w := v.happen (.move .start)) hstart later).done hdone

theorem happenAll_shares_ground_set :
    let w := ((new 2).happenAll [.setHeight 1 0 30])
    let u := (w.upkeep.happen (.move .start)).happenAll [.setHeight 1 0 40, .move .publish]
    u.basin.front.map Cell.ground = w.ground.heights ∧
      u.ground.heightAt 1 0 ≠ w.ground.heightAt 1 0 :=
  ⟨(happenAll_shares_ground 2 [.setHeight 1 0 30]).2.2.2.2.2 [] _
    (fun n => by rw [List.take_nil]; rfl) (by decide +kernel), by decide +kernel⟩

end World

end Terrarium
