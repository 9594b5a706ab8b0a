import Terrarium.Proofs.GroundCopy
import Terrarium.Proofs.SmoothHeights

namespace Terrarium

namespace HeightMap

/-- What a height can be. -/
def Possible (h : Float32) : Prop := h.isNaN ∨ InRange h

/-- Ground of a size with all of its heights in range. -/
structure Ranged (size : UInt32) (g : Grid Float32) : Prop where
  size : g.size = size
  heights : g.All InRange

theorem inRange_confine {h : Float32} (hnumber : h.isNaN = false) : InRange (confine h) :=
  Single.clamp_mem (by decide +kernel) hnumber

theorem isNaN_confine {h : Float32} (hnan : h.isNaN) : (confine h).isNaN := by
  rwa [confine, Single.clamp_nan hnan]

theorem possible_confine (h : Float32) : Possible (confine h) := by
  by_cases hnan : h.isNaN
  · exact .inl (isNaN_confine hnan)
  · exact .inr (inRange_confine (Bool.eq_false_iff.mpr hnan))

end HeightMap

namespace Brush

theorem paint_keeps {α : Type} {P : Grid α → Prop} {b : Brush} {r : Rect} {g : Grid α}
    {rule : Grid α → Nat → Nat → Float32 → Grid α}
    (hrule : ∀ g x y d, b.weight? x y = some d → P g → P (rule g x y d)) (hg : P g) :
    P (b.paint r rule g) := by
  rw [paint]
  generalize r.cells = cells
  induction cells generalizing g with
  | nil => exact hg
  | cons p cells ih =>
      apply ih
      dsimp only
      split
      · rename_i d hd
        exact hrule g p.1 p.2 d hd hg
      · exact hg

theorem weight?_eq_some {b : Brush} {x y : Nat} {w : Float32} (h : b.weight? x y = some w) :
    ∃ d ∈ b.density, b.strength * d = w := by
  obtain ⟨d, hd, hw⟩ := Option.map_eq_some_iff.mp h
  exact ⟨d, Array.mem_of_getElem? hd, hw⟩

/-- All weights of a brush are finite. -/
def Finite (b : Brush) : Prop := ∀ d ∈ b.density, (b.strength * d).isFinite

instance (b : Brush) : Decidable b.Finite :=
  inferInstanceAs (Decidable (∀ d ∈ b.density, (b.strength * d).isFinite))

theorem Finite.weight {b : Brush} (hb : b.Finite) {x y : Nat} {w : Float32}
    (h : b.weight? x y = some w) : w.isFinite := by
  obtain ⟨d, hd, rfl⟩ := weight?_eq_some h
  exact hb d hd

end Brush

open HeightMap

/-- The height that a ramp leads to at a cell. -/
def rampTarget (start : Point) (startHeight : Float32) (stop : Point) (stopHeight : Float32)
    (x y : Nat) : Float32 :=
  World.rampHeight start startHeight stopHeight ((stop - start).shrink (stop - start).length)
    (stop - start).length x y

namespace Operation

/-- The brush and the rule with which an operation paints the ground. -/
def painting? : Operation → Option (Brush × (Grid Float32 → Nat → Nat → Float32 → Grid Float32))
  | .terraformRaise b => some (b, ownRule fun h d _ _ => h + d)
  | .terraformLevel b reference =>
      some (b, ownRule fun h d _ _ => Single.interpolate h reference d)
  | .terraformSmooth b => some (b, smoothRule)
  | .terraformRamp b start startHeight stop stopHeight => some (b, ownRule fun h d x y =>
      Single.interpolate h (rampTarget start startHeight stop stopHeight x y) d)
  | _ => none

/-- An operation that paints with finite weights toward finite heights. To raise the ground, weights
that are numbers are enough. -/
def Tame (size : UInt32) : Operation → Prop
  | .terraformRaise b => ∀ d ∈ b.density, (b.strength * d).isNaN = false
  | .terraformLevel b reference => b.Finite ∧ reference.isFinite
  | .terraformSmooth b => b.Finite
  | .terraformRamp b start startHeight stop stopHeight => b.Finite ∧
      ∀ x < size.toNat, ∀ y < size.toNat,
        (rampTarget start startHeight stop stopHeight x y).isFinite
  | _ => True

variable {op : Operation} {b : Brush} {rule : Grid Float32 → Nat → Nat → Float32 → Grid Float32}
  {size : UInt32} {g : Grid Float32} {x y : Nat} {d : Float32}

theorem groundRule_painting (hop : op.painting? = some (b, rule)) : GroundRule rule := by
  cases op with
  | terraformSmooth b =>
      cases hop
      exact .smooth
  | terraformRaise b | terraformLevel b reference
  | terraformRamp b start startHeight stop stopHeight =>
      cases hop
      exact .own _
  | _ => cases hop

theorem Tame.painting (htame : op.Tame size) (hop : op.painting? = some (b, rule))
    (hd : b.weight? x y = some d) (hg : Ranged size g) : (rule g x y d).All InRange := by
  cases op with
  | terraformRaise b =>
      cases hop
      obtain ⟨d', hd', rfl⟩ := Brush.weight?_eq_some hd
      exact hg.heights.modify x y fun h _ hh => inRange_confine
        (Single.number_add (Single.isFinite_of_le hh.1 hh.2 rfl) (htame d' hd'))
  | terraformLevel b reference =>
      cases hop
      exact hg.heights.modify x y fun h _ hh => inRange_confine
        (number_interpolate hh htame.2 (htame.1.weight hd))
  | terraformSmooth b =>
      cases hop
      rw [smoothRule]
      split
      · exact hg.heights
      · rename_i a ha
        have hweight : d.isFinite := Brush.Finite.weight htame hd
        exact hg.heights.modify x y fun h hcell hh => inRange_confine
          (number_interpolate hh (isFinite_average hg.heights hcell ha) hweight)
  | terraformRamp b start startHeight stop stopHeight =>
      cases hop
      refine hg.heights.modify x y fun h hcell hh => inRange_confine ?_
      have hinside := Grid.get?_isSome.mp (Option.isSome_of_eq_some hcell)
      rw [hg.size] at hinside
      exact number_interpolate hh (htame.2 x hinside.1 y hinside.2) (htame.1.weight hd)
  | _ => cases hop

theorem isNaN_modify {f : Float32 → Float32} (hf : ∀ h, h.isNaN → (f h).isNaN) {i j : Nat}
    (h : (g.get? i j).any Float32.isNaN) :
    ((g.modify x y fun h => confine (f h)).get? i j).any Float32.isNaN := by
  rw [Grid.get?_modify]
  split
  · obtain ⟨h', hh', hnan⟩ := (Option.any_eq_true _ _).mp h
    rw [hh']
    exact isNaN_confine (hf h' hnan)
  · exact h

theorem painting_isNaN (hop : op.painting? = some (b, rule)) {i j : Nat}
    (h : (g.get? i j).any Float32.isNaN) : ((rule g x y d).get? i j).any Float32.isNaN := by
  cases op with
  | terraformSmooth b =>
      cases hop
      rw [smoothRule]
      split
      · exact h
      · exact isNaN_modify (fun h hnan => Single.isNaN_add_left hnan _) h
  | terraformRaise b | terraformLevel b reference
  | terraformRamp b start startHeight stop stopHeight =>
      cases hop
      exact isNaN_modify (fun h hnan => Single.isNaN_add_left hnan _) h
  | _ => cases hop

end Operation

theorem GroundRule.all_possible {rule : Grid Float32 → Nat → Nat → Float32 → Grid Float32}
    (h : GroundRule rule) {g : Grid Float32} (x y : Nat) (d : Float32) (hg : g.All Possible) :
    (rule g x y d).All Possible := by
  cases h with
  | own rule => exact hg.modify x y fun _ _ _ => possible_confine _
  | smooth =>
      rw [smoothRule]
      split
      · exact hg
      · exact hg.modify x y fun _ _ _ => possible_confine _

namespace World

open Fluid

/-- The heights of the ground, and what the fluid knows of them, are possible. -/
structure Bounded (w : World) : Prop where
  ground : w.ground.heights.All Possible
  bed : (bed w.basin.back).All Possible

variable {size : UInt32} {v w : World}

theorem all_inRange_new (size : UInt32) : (new size).ground.heights.All InRange :=
  Grid.all_uniform ⟨by decide +kernel, by decide +kernel⟩ size

theorem bounded_new (size : UInt32) : (new size).Bounded := by
  have hground : (new size).ground.heights.All Possible :=
    fun _ _ _ h => .inr (all_inRange_new size h)
  refine ⟨hground, ?_⟩
  change (bed (dry (HeightMap.new size))).All Possible
  rwa [bed_dry]

theorem Bounded.of_bed (hw : w.Bounded) (hground : v.ground.heights = w.ground.heights)
    (hbed : Fluid.bed v.basin.back = Fluid.bed w.basin.back) : v.Bounded :=
  ⟨hground ▸ hw.ground, hbed ▸ hw.bed⟩

theorem Bounded.wait (hw : w.Bounded) : w.wait.Bounded := hw.of_bed rfl w.basin.bed_wait

theorem Bounded.change {d : Delta} (hw : w.Bounded) (h : w.Change d v) : v.Bounded := by
  have hbed := bed_change h
  cases h with
  | painted hfoot hrule =>
      exact ⟨Brush.paint_keeps (P := Grid.All Possible)
        (fun _ x y d _ hg => hrule.all_possible x y d hg) hw.ground, hw.bed⟩
  | _ => exact hw.of_bed rfl hbed

theorem Bounded.move (hw : w.Bounded) (hshared : w.Shared size) (m : Move) :
    (w.move m).Bounded := by
  cases m with
  | execute op => exact execute_keeps (fun _ h => h.wait) (fun _ _ _ h => h.change) hw op
  | upkeep =>
      refine ⟨hw.ground, ?_⟩
      change (Fluid.bed w.upkeep.basin.back).All Possible
      rw [hshared.bed_upkeep]
      exact hw.ground
  | start => exact hw.of_bed rfl rfl
  | publish => exact hw.of_bed rfl w.basin.bed_publish
  | finish => exact hw.of_bed rfl w.basin.bed_finish
  | wait => exact hw.wait

theorem bounded_moveAll (size : UInt32) (moves : List Move) : ((new size).moveAll moves).Bounded :=
  (moveAll_keeps (P := fun w => w.Shared size ∧ w.Bounded)
    (fun _ m h => ⟨h.1.move m, h.2.move h.1 m⟩) ⟨shared_new size, bounded_new size⟩ moves).2

theorem ground_paintGround {b : Brush} {rule : Grid Float32 → Nat → Nat → Float32 → Grid Float32}
    {d : Delta} (h : w.paintGround b rule = .ok (d, v)) :
    ∃ r, v.ground.heights = b.paint r rule w.ground.heights := by
  rw [paintGround, painted] at h
  cases hfoot : b.footprint w.ground.size with
  | error e => simp [hfoot] at h
  | ok r =>
      simp only [hfoot, Except.ok.injEq, Prod.mk.injEq] at h
      obtain ⟨rfl, rfl⟩ := h
      exact ⟨r, rfl⟩

theorem ground_updateSource {id : ObjectId} {f : Source → Source} {d : Delta}
    (h : w.updateSource id f = .ok (d, v)) : v.ground = w.ground := by
  rw [updateSource] at h
  split at h <;> cases h
  rfl

theorem ground_createSource {id : ObjectId} {pos : Point} {radius level capacity : Float32}
    {d : Delta} (h : w.createSource id pos radius level capacity = .ok (d, v)) :
    v.ground = w.ground := by
  rw [createSource] at h
  split at h
  · cases h
  · split at h <;> cases h
    rfl

theorem ground_moveSource {id : ObjectId} {pos : Point} {d : Delta}
    (h : w.moveSource id pos = .ok (d, v)) : v.ground = w.ground := by
  rw [moveSource] at h
  split at h
  · cases h
  · exact ground_updateSource h

theorem ground_destroySource {id : ObjectId} {d : Delta}
    (h : w.destroySource id = .ok (d, v)) : v.ground = w.ground := by
  rw [destroySource] at h
  split at h <;> cases h
  rfl

theorem ground_paintFluid {b : Brush} {d : Delta} (h : w.paintFluid b = .ok (d, v)) :
    v.ground = w.ground := by
  rw [paintFluid] at h
  split at h <;> cases h
  rfl

theorem ground_apply {op : Operation} {d : Delta} (h : w.apply op = .ok (d, v)) :
    v.ground = w.ground ∨ ∃ b rule r, op.painting? = some (b, rule) ∧
      v.ground.heights = b.paint r rule w.ground.heights := by
  cases op with
  | terraformRaise b | terraformLevel b reference | terraformSmooth b =>
      obtain ⟨r, hground⟩ := ground_paintGround h
      exact .inr ⟨_, _, r, rfl, hground⟩
  | terraformRamp b start startHeight stop stopHeight =>
      rw [apply, paintRamp] at h
      dsimp only at h
      split at h
      · cases h
      · obtain ⟨r, hground⟩ := ground_paintGround h
        exact .inr ⟨_, _, r, rfl, hground⟩
  | fluidRaise b => exact .inl (ground_paintFluid h)
  | sourceCreate id pos radius level capacity => exact .inl (ground_createSource h)
  | sourceMove id pos => exact .inl (ground_moveSource h)
  | sourceSetLevel id level => exact .inl (ground_updateSource h)
  | sourceSetCapacity id capacity => exact .inl (ground_updateSource h)
  | sourceDestroy id => exact .inl (ground_destroySource h)
  | oceanSetLevel level | fluidReset =>
      cases h
      exact .inl rfl

theorem execute_keeps_ground {op : Operation} {P : Grid Float32 → Prop}
    (hrule : ∀ b rule g x y d, op.painting? = some (b, rule) → b.weight? x y = some d → P g →
      P (rule g x y d)) (hw : P w.ground.heights) : P (w.execute op).2.ground.heights := by
  have hmet : (w.met op).ground = w.ground := by
    rw [met]
    split <;> rfl
  rw [execute_eq]
  split
  · rwa [hmet]
  · rename_i delta next happly
    rcases ground_apply happly with hsame | ⟨b, rule, r, hop, hpaint⟩
    · rwa [hsame, hmet]
    · rw [hpaint, hmet]
      exact Brush.paint_keeps (fun g x y d hd hg => hrule b rule g x y d hop hd hg) hw

theorem move_isNaN {x y : Nat} (h : (w.ground.heightAt x y).any Float32.isNaN) (m : Move) :
    ((w.move m).ground.heightAt x y).any Float32.isNaN := by
  cases m with
  | execute op =>
      exact execute_keeps_ground (P := fun g => (g.get? x y).any Float32.isNaN)
        (fun _ _ _ _ _ _ hop _ hg => op.painting_isNaN hop hg) h
  | _ => exact h

theorem ranged_move {m : Move} (htame : ∀ op, m = .execute op → op.Tame size)
    (h : Ranged size w.ground.heights) : Ranged size (w.move m).ground.heights := by
  cases m with
  | execute op =>
      apply execute_keeps_ground _ h
      intro b rule g x y d hop hd hg
      have hsize := (op.groundRule_painting hop).size_eq g x y d
      exact ⟨hsize.trans hg.size, (htame op rfl).painting hop hd hg⟩
  | _ => exact h

/-- Every height of the ground is a number in the range of heights that can be set, or none at all;
and where it is none, it stays none, whatever is painted later. As long as weights and the heights
that are painted are finite, it is a number. -/
theorem moveAll_heights (size : UInt32) (past later : List Move) (x y : Nat) (h : Float32)
    (hheight : ((new size).moveAll past).ground.heightAt x y = some h) :
    (h.isNaN ∨ lowest ≤ h ∧ h ≤ highest) ∧
    (h.isNaN → ∃ h', (((new size).moveAll past).moveAll later).ground.heightAt x y = some h' ∧
      h'.isNaN) ∧
    ((∀ op, .execute op ∈ past → op.Tame size) → lowest ≤ h ∧ h ≤ highest) := by
  refine ⟨(bounded_moveAll size past).ground hheight, fun hnan => ?_, fun htame => ?_⟩
  · have hvoid := moveAll_keeps (P := fun w => (w.ground.heightAt x y).any Float32.isNaN)
      (fun _ m hv => move_isNaN hv m) (w := (new size).moveAll past) (by rwa [hheight]) later
    rwa [Option.any_eq_true] at hvoid
  · have hranged : Ranged size ((new size).moveAll past).ground.heights :=
      moveAll_keeps_of_mem (P := fun w => Ranged size w.ground.heights)
        (fun m hm w hw => ranged_move (fun op hop => htame op (hop ▸ hm)) hw)
        ⟨rfl, all_inRange_new size⟩
    exact hranged.heights hheight

/-- The middle of three cells by three is moved toward the height that it has, with a weight that is
too large to be finite, and is lost; raising it does not bring it back. Weights that are finite take
it down to the lowest height and half way up to a ramp. -/
theorem moveAll_heights_lost :
    (let w := (new 3).moveAll [.execute (.terraformLevel ⟨1, 1, 1, #[1e30], 1e30⟩ defaultHeight)];
      w.ground.heightAt 1 1 = some (0 / 0) ∧
      ∃ h, (w.moveAll [.execute (.terraformRaise (Brush.uniform 1 1 1 5))]).ground.heightAt 1 1 =
        some h ∧ h.isNaN) ∧
    (let w := (new 3).moveAll [.execute (.terraformRaise (Brush.uniform 1 1 3 (-40))),
        .execute (.terraformRamp (Brush.uniform 1 1 1 0.5) ⟨0, 1⟩ 20 ⟨2, 1⟩ 40)];
      w.ground.heightAt 1 1 = some 15 ∧ lowest ≤ 15 ∧ 15 ≤ highest) := by
  refine ⟨⟨by decide +kernel, ?_⟩, by decide +kernel, ?_⟩
  · exact (moveAll_heights 3 _ _ 1 1 (0 / 0) (by decide +kernel)).2.1 (by decide +kernel)
  · refine (moveAll_heights 3 [.execute (.terraformRaise (Brush.uniform 1 1 3 (-40))),
      .execute (.terraformRamp (Brush.uniform 1 1 1 0.5) ⟨0, 1⟩ 20 ⟨2, 1⟩ 40)] [] 1 1 15
      (by decide +kernel)).2.2 ?_
    intro op hop
    simp only [List.mem_cons, List.not_mem_nil, or_false, Move.execute.injEq] at hop
    rcases hop with rfl | rfl
    · change ∀ d ∈ _, _
      decide +kernel
    · exact ⟨by decide +kernel, by decide +kernel⟩

end World

end Terrarium
