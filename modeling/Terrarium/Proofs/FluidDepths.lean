import Terrarium.Proofs.GroundHeights

namespace Terrarium

open Single (inf)

namespace Fluid

theorem depth_settleCell (c : Cell) : 0 ≤ (settleCell c).depth := by
  rw [settleCell]
  split
  · exact Single.le_refl rfl
  · rename_i h
    simp only [Bool.or_eq_true, decide_eq_true_eq, not_or] at h
    exact (Single.not_lt (Bool.eq_false_iff.mpr h.1) rfl).mp h.2

/-- No cell holds less than nothing. -/
def Settled (g : Grid Cell) : Prop := g.All fun c => 0 ≤ c.depth

theorem settled_dry (m : HeightMap) : Settled (dry m) :=
  Grid.all_map fun _ => Single.le_refl rfl

theorem settled_step (g : Grid Cell) (job : Job) : Settled (step g job) :=
  Grid.all_map depth_settleCell

theorem settled_clear (g : Grid Cell) : Settled (g.map fun c => { c with depth := 0 }) :=
  Grid.all_map fun _ => Single.le_refl rfl

theorem settled_raise {g : Grid Cell} (hg : Settled g) (b : Brush) (r : Rect) :
    Settled (b.paint r raiseRule g) :=
  Brush.paint_keeps (P := Settled)
    (fun _ x y _ _ hg => hg.modify x y fun _ _ _ => Single.zero_le_larger _) hg

end Fluid

namespace Basin

open Fluid

/-- Both buffers hold what a step leaves behind. -/
structure Settled (b : Basin) : Prop where
  back : Fluid.Settled b.back
  front : Fluid.Settled b.front

variable {b : Basin}

theorem settled_new (m : HeightMap) : (new m).Settled := ⟨settled_dry m, settled_dry m⟩

theorem Settled.wait (hb : b.Settled) : b.wait.Settled := by
  have hback : Fluid.Settled b.wait.back :=
    Grid.All.foldl (fun g job _ => settled_step g job) hb.back b.waiting
  refine ⟨hback, ?_⟩
  rw [Basin.wait]
  dsimp only
  split
  · exact hb.front
  · exact hback

theorem Settled.write (hb : b.Settled) {f : Grid Cell → Grid Cell}
    (hf : ∀ g, Fluid.Settled g → Fluid.Settled (f g)) : (b.write f).Settled :=
  ⟨hf _ hb.wait.back, hb.wait.front⟩

theorem Settled.publish (hb : b.Settled) : b.publish.Settled := by
  rw [Basin.publish]
  cases b.waiting with
  | nil => exact hb
  | cons job rest => exact ⟨settled_step b.back job, settled_step b.back job⟩

theorem Settled.finish (hb : b.Settled) : b.finish.Settled := by
  rw [Basin.finish]
  split
  · exact ⟨hb.back, hb.front⟩
  · exact hb

theorem Settled.groundUpdated (hb : b.Settled) (r : Rect) (m : HeightMap) :
    (b.groundUpdated r m).Settled := by
  rw [Basin.groundUpdated]
  split
  · exact hb
  · apply hb.write
    intro g hg
    apply hg.foldl
    intro g p hg
    cases m.heightAt p.1 p.2 with
    | none => exact hg
    | some h => exact hg.modify p.1 p.2 fun _ _ hc => hc

end Basin

namespace World

open Fluid

variable {v w : World}

theorem settled_change {d : Delta} (hw : w.basin.Settled) (h : w.Change d v) :
    v.basin.Settled := by
  cases h with
  | painted hfoot hrule => exact hw
  | @raised b r hfoot => exact hw.write fun _ hg => settled_raise hg b r
  | drained => exact hw.write fun g _ => settled_clear g
  | _ => exact ⟨hw.back, hw.front⟩

theorem settled_upkeep (hw : w.basin.Settled) : w.upkeep.basin.Settled := by
  have hgrounded : w.grounded.Settled := by
    rw [grounded]
    split
    · exact hw
    · exact hw.groundUpdated _ _
  constructor
  · rw [back_upkeep]
    exact hgrounded.back
  · rw [front_upkeep]
    exact hgrounded.front

theorem settled_move (hw : w.basin.Settled) (m : Move) : (w.move m).basin.Settled := by
  cases m with
  | execute op =>
      exact execute_keeps (P := fun v => v.basin.Settled) (fun _ h => h.wait)
        (fun _ _ _ => settled_change) hw op
  | upkeep => exact settled_upkeep hw
  | start => exact ⟨hw.back, hw.front⟩
  | publish => exact hw.publish
  | finish => exact hw.finish
  | wait => exact hw.wait

theorem settled_moveAll (size : UInt32) (moves : List Move) :
    ((new size).moveAll moves).basin.Settled :=
  moveAll_keeps (P := fun w => w.basin.Settled) (fun _ m h => settled_move h m)
    (Basin.settled_new _) moves

/-- Whatever has happened to a world, in both buffers every depth is a number that is not
negative. -/
theorem moveAll_depths (size : UInt32) (moves : List Move) (x y : Nat) (c : Cell) :
    let b := ((new size).moveAll moves).basin
    b.back.get? x y = some c ∨ b.front.get? x y = some c → c.depth.isNaN = false ∧ 0 ≤ c.depth := by
  intro b h
  have hdepth : 0 ≤ c.depth := by
    rcases h with h | h
    · exact (settled_moveAll size moves).back h
    · exact (settled_moveAll size moves).front h
  exact ⟨Single.number_of_le_right hdepth, hdepth⟩

/-- A source and an ocean without bounds leave infinite depths behind, and fluid that is taken away
without bounds leaves a dry cell. -/
theorem moveAll_depths_boundless :
    let b := ((new 2).moveAll
      [.execute (.sourceCreate ⟨1⟩ ⟨0, 0⟩ 2 inf (0 / 0)), .execute (.oceanSetLevel inf), .upkeep,
        .start, .publish, .execute (.fluidRaise (Brush.uniform 0.5 0.5 1 (-inf)))]).basin
    (b.back.get? 0 0 = some ⟨20, 0⟩ ∧ b.front.get? 0 0 = some ⟨20, inf⟩) ∧
    inf.isNaN = false ∧ 0 ≤ inf :=
  ⟨by decide +kernel, moveAll_depths 2
    [.execute (.sourceCreate ⟨1⟩ ⟨0, 0⟩ 2 inf (0 / 0)), .execute (.oceanSetLevel inf), .upkeep,
      .start, .publish, .execute (.fluidRaise (Brush.uniform 0.5 0.5 1 (-inf)))]
    0 0 ⟨20, inf⟩ (.inr (by decide +kernel))⟩

end World

namespace Fluid

/-- What can be left of a cell in the course of a step: no less fluid than before, or a depth that
is no number, for a cause. -/
structure Kept (before : Cell) (cause : Prop) (c : Cell) : Prop where
  ground : c.ground = before.ground
  depth : before.depth ≤ c.depth ∨ c.depth.isNaN ∧ cause

/-- A source that pours into a cell without an end: it gives more than any number and does not know
what the cell lacks. -/
structure Boundless (r : Reach) (x y : Nat) (ground : Float32) : Prop where
  inside : (x, y) ∈ r.rect.cells ∧ r.covers x y
  capacity : ¬r.capacity < inf
  level : ¬(r.level < inf ∧ 0 ≤ ground)

variable {before : Cell} {cause : Prop} {r : Reach} {g : Grid Cell} {budget : Float32}

theorem pourCell_cases (r : Reach) (g : Grid Cell) (budget : Float32) (p : Nat × Nat) :
    pourCell r (g, budget) p = (g, budget) ∨
    ∃ c, g.get? p.1 p.2 = some c ∧ r.covers p.1 p.2 ∧ ¬budget ≤ 0 ∧ ¬c.deficit r.level ≤ 0 ∧
      pourCell r (g, budget) p =
        (g.modify p.1 p.2 fun c' =>
          { c' with depth := c'.depth + Single.smaller (c.deficit r.level) budget },
          budget - Single.smaller (c.deficit r.level) budget) := by
  rw [pourCell]
  dsimp only
  split
  · exact .inl rfl
  · rename_i hpour
    simp only [Bool.or_eq_true, decide_eq_true_eq, Bool.not_eq_true', not_or,
      Bool.not_eq_false] at hpour
    split
    · exact .inl rfl
    · rename_i c hc
      split
      · exact .inl rfl
      · rename_i hdeficit
        exact .inr ⟨c, hc, hpour.2, hpour.1, hdeficit, rfl⟩

theorem pourCell_budget (hbudget : budget < inf) (p : Nat × Nat) :
    (pourCell r (g, budget) p).2 < inf := by
  rcases pourCell_cases r g budget p with h | ⟨c, -, -, hpos, hdeficit, h⟩
  · rwa [h]
  · rw [h]
    rcases Single.smaller_cases hdeficit hpos with hadded | hnan
    · exact Single.sub_lt_inf hbudget hadded
    · exact absurd hnan.2.2 (Single.not_nan_left hbudget)

theorem deficit_lt_inf {c : Cell} {level : Float32} (hlevel : level < inf) (hground : 0 ≤ c.ground)
    (hdepth : 0 ≤ c.depth) : c.deficit level < inf :=
  Single.sub_lt_inf (Single.sub_lt_inf hlevel hground) hdepth

theorem kept_pour {c : Cell} (hdry : 0 ≤ before.depth) (hkept : Kept before cause c)
    (hpos : ¬budget ≤ 0) (hdeficit : ¬c.deficit r.level ≤ 0)
    (hcause : ¬budget < inf → ¬(r.level < inf ∧ 0 ≤ before.ground) → cause) :
    Kept before cause { c with depth := c.depth + Single.smaller (c.deficit r.level) budget } := by
  refine ⟨hkept.ground, ?_⟩
  rcases hkept.depth with hdepth | ⟨hnan, h⟩
  · rcases Single.smaller_cases hdeficit hpos with hadded | ⟨hnan, hlack, hbudget⟩
    · left
      exact Single.le_trans hdepth (Single.le_add (Single.le_trans hdry hdepth) hadded)
    · right
      refine ⟨Single.isNaN_add_right _ hnan, hcause ?_ ?_⟩
      · exact fun hlt => Single.not_nan_left hlt hbudget
      · rintro ⟨hlevel, hground⟩
        have hlt : c.deficit r.level < inf :=
          deficit_lt_inf hlevel (hkept.ground ▸ hground) (Single.le_trans hdry hdepth)
        exact Single.not_nan_left hlt hlack
  · exact .inr ⟨Single.isNaN_add_left hnan _, h⟩

/-- The cell at a place is kept. -/
def KeptAt (before : Cell) (cause : Prop) (x y : Nat) (g : Grid Cell) : Prop :=
  ∃ c, g.get? x y = some c ∧ Kept before cause c

variable {x y : Nat}

theorem KeptAt.modify (h : KeptAt before cause x y g) {f : Cell → Cell} {p : Nat × Nat}
    (hf : p = (x, y) → ∀ c, g.get? x y = some c → Kept before cause c → Kept before cause (f c)) :
    KeptAt before cause x y (g.modify p.1 p.2 f) := by
  obtain ⟨c, hc, hkept⟩ := h
  by_cases hp : p = (x, y)
  · subst hp
    exact ⟨f c, by rw [Grid.get?_modify, if_pos ⟨rfl, rfl⟩, hc]; rfl, hf rfl c hc hkept⟩
  · refine ⟨c, ?_, hkept⟩
    rw [Grid.get?_modify, if_neg, hc]
    rintro ⟨rfl, rfl⟩
    exact hp rfl

theorem KeptAt.pourCell (h : KeptAt before cause x y g) (hdry : 0 ≤ before.depth) {p : Nat × Nat}
    (hcause : p = (x, y) → r.covers x y → ¬budget < inf → ¬(r.level < inf ∧ 0 ≤ before.ground) →
      cause) :
    KeptAt before cause x y (pourCell r (g, budget) p).1 := by
  rcases pourCell_cases r g budget p with hsame | ⟨c, hc, hcovers, hpos, hdeficit, hpour⟩
  · rwa [hsame]
  · rw [hpour]
    refine h.modify fun hp c' hc' hkept => ?_
    subst hp
    obtain rfl : c = c' := Option.some.inj (hc.symm.trans hc')
    exact kept_pour hdry hkept hpos hdeficit (hcause rfl hcovers)

theorem KeptAt.pour (h : KeptAt before cause x y g) (hdry : 0 ≤ before.depth)
    (hcause : Boundless r x y before.ground → cause) : KeptAt before cause x y (pour g r) := by
  suffices hfold : ∀ (cells : List (Nat × Nat)) (state : Grid Cell × Float32),
      (∀ p ∈ cells, p ∈ r.rect.cells) → KeptAt before cause x y state.1 →
      (r.capacity < inf → state.2 < inf) →
      KeptAt before cause x y (cells.foldl (Fluid.pourCell r) state).1 from
    hfold r.rect.cells (g, r.capacity) (fun _ hp => hp) h id
  intro cells
  induction cells with
  | nil => exact fun _ _ h _ => h
  | cons p cells ih =>
      intro state hinside h hbudget
      obtain ⟨hp, hcells⟩ := List.forall_mem_cons.mp hinside
      refine ih _ hcells (h.pourCell hdry ?_) fun hcapacity => pourCell_budget (hbudget hcapacity) p
      rintro rfl hcovers hno hlevel
      exact hcause ⟨⟨hp, hcovers⟩, mt hbudget hno, hlevel⟩

theorem KeptAt.pours (h : KeptAt before cause x y g) (hdry : 0 ≤ before.depth)
    (reaches : List Reach) (hcause : ∀ r ∈ reaches, Boundless r x y before.ground → cause) :
    KeptAt before cause x y (reaches.foldl Fluid.pour g) := by
  induction reaches generalizing g with
  | nil => exact h
  | cons r reaches ih =>
      obtain ⟨hr, hreaches⟩ := List.forall_mem_cons.mp hcause
      exact ih (h.pour hdry hr) hreaches

theorem kept_flood {c : Cell} (hkept : Kept before cause c) (ocean : Float32) :
    Kept before cause (flood ocean c) := by
  rw [flood]
  split
  · rename_i hlt
    refine ⟨hkept.ground, ?_⟩
    rcases hkept.depth with hdepth | ⟨hnan, -⟩
    · exact .inl (Single.le_trans hdepth (Single.le_of_lt hlt))
    · exact absurd hnan (Single.not_nan_left hlt)
  · exact hkept

theorem kept_settleCell {c : Cell} (hdry : 0 ≤ before.depth) (hkept : Kept before cause c) :
    before.depth ≤ (settleCell c).depth ∨ (settleCell c).depth = 0 ∧ cause := by
  rw [settleCell]
  rcases hkept.depth with hdepth | ⟨hnan, h⟩
  · left
    have hnumber := Single.number_of_le_right hdepth
    have hsettled : ¬c.depth < 0 := (Single.not_lt hnumber rfl).mpr (Single.le_trans hdry hdepth)
    rwa [if_neg]
    rw [hnumber, Bool.false_or, decide_eq_true_iff]
    exact hsettled
  · rw [if_pos (by rw [hnan, Bool.true_or])]
    exact .inr ⟨rfl, h⟩

/-- A step takes fluid from no cell, unless a source pours into it without an end. -/
theorem step_depth (job : Job) {c : Cell} (hc : g.get? x y = some c) (hdry : 0 ≤ c.depth) :
    ∃ c', (step g job).get? x y = some c' ∧
      (c.depth ≤ c'.depth ∨ c'.depth = 0 ∧ ∃ r ∈ job.reaches, Boundless r x y c.ground) := by
  have hstart : KeptAt c (∃ r ∈ job.reaches, Boundless r x y c.ground) x y g :=
    ⟨c, hc, rfl, .inl (Single.le_refl (Single.number_of_le_right hdry))⟩
  obtain ⟨c₁, hc₁, hkept⟩ := hstart.pours hdry job.reaches fun r hr h => ⟨r, hr, h⟩
  rw [step, Grid.get?_map, floodBorder, Grid.get?_mapCells, hc₁]
  refine ⟨_, rfl, kept_settleCell hdry ?_⟩
  split
  · exact kept_flood hkept job.ocean
  · exact hkept

end Fluid

namespace World

/-- Whatever has happened to a world, the next step takes fluid from no cell, unless a source that
covers the cell has no finite capacity, and its level is not finite either or the height of the
ground is no number. What is taken then is all of it. -/
theorem moveAll_step_depths (size : UInt32) (moves : List Move) (job : Job) (x y : Nat) (c : Cell)
    (hc : ((new size).moveAll moves).basin.back.get? x y = some c) :
    ∃ c', (Fluid.step ((new size).moveAll moves).basin.back job).get? x y = some c' ∧
      (c.depth ≤ c'.depth ∨ c'.depth = 0 ∧ ∃ r ∈ job.reaches,
        (x, y) ∈ r.rect.cells ∧ r.covers x y ∧ ¬r.capacity < inf ∧
          (¬r.level < inf ∨ c.ground.isNaN)) := by
  obtain ⟨c', hc', hdepth⟩ :=
    Fluid.step_depth job hc ((settled_moveAll size moves).back hc)
  refine ⟨c', hc', hdepth.imp_right fun ⟨hdry, r, hr, hboundless⟩ => ⟨hdry, r, hr,
    hboundless.inside.1, hboundless.inside.2, hboundless.capacity, ?_⟩⟩
  have hground : HeightMap.Possible c.ground :=
    (bounded_moveAll size moves).bed (by rw [Fluid.get?_bed, hc]; rfl)
  rcases hground with hnan | hrange
  · exact .inr hnan
  · left
    intro hlevel
    exact hboundless.level ⟨hlevel, hrange.1⟩

/-- A source without bounds fills two cells by two in one step, and in the next one it leaves all of
them dry but the first. -/
theorem moveAll_step_depths_drain :
    let w := (new 2).moveAll
      [.execute (.sourceCreate ⟨1⟩ ⟨0, 0⟩ 2 inf inf), .upkeep, .start, .publish]
    let job : Job := ⟨w.basin.reaches, w.basin.ocean⟩
    w.basin.back.get? 1 0 = some ⟨20, inf⟩ ∧
    (Fluid.step w.basin.back job).get? 1 0 = some ⟨20, 0⟩ ∧
    ∃ c', (Fluid.step w.basin.back job).get? 1 0 = some c' ∧
      (inf ≤ c'.depth ∨ c'.depth = 0 ∧ ∃ r ∈ job.reaches,
        (1, 0) ∈ r.rect.cells ∧ r.covers 1 0 ∧ ¬r.capacity < inf ∧
          (¬r.level < inf ∨ (20 : Float32).isNaN)) :=
  ⟨by decide +kernel, by decide +kernel,
    moveAll_step_depths 2 _ _ 1 0 ⟨20, inf⟩ (by decide +kernel)⟩

end World

end Terrarium
