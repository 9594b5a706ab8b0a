import Terrarium.Proofs.SeparateSources

namespace Terrarium

/-- A number that is one of two and not less than either. Zeros of both signs are equally large. -/
structure Single.IsLarger (x y z : Float32) : Prop where
  choice : z = x ∨ z = y
  left : x ≤ z
  right : y ≤ z

namespace Fluid

open Grid
open Single (inf)

/-- What is left of a depth on which nothing flows. -/
def cleanDepth (depth : Float32) : Float32 := if depth.isNaN ∨ depth < 0 then 0 else depth

/-- What becomes of a depth at the border. -/
def shoreDepth (ocean ground depth : Float32) : Float32 :=
  cleanDepth (if depth < ocean - ground then ocean - ground else depth)

/-- What becomes of a cell that no source reaches. -/
def stepCell (border : Bool) (ocean : Float32) (c : Cell) : Cell where
  ground := c.ground
  depth := if border then shoreDepth ocean c.ground c.depth else cleanDepth c.depth

variable {g : Grid Cell} {job : Job} {x y : Nat} {ocean ground depth : Float32} {border : Bool}
  {c : Cell}

theorem settleCell_eq (c : Cell) : settleCell c = ⟨c.ground, cleanDepth c.depth⟩ := by
  rw [settleCell, cleanDepth]
  simp only [Bool.or_eq_true, decide_eq_true_eq]
  split <;> rfl

theorem settleCell_flood (border : Bool) (ocean : Float32) (c : Cell) :
    settleCell (if border then flood ocean c else c) = stepCell border ocean c := by
  cases border with
  | false => exact settleCell_eq c
  | true =>
      rw [if_pos rfl, settleCell_eq, ground_flood, stepCell, if_pos rfl, shoreDepth, flood]
      split <;> rfl

theorem get?_pours {reaches : List Reach}
    (hclear : ∀ r ∈ reaches, (x, y) ∉ r.area g.size) :
    (reaches.foldl pour g).get? x y = g.get? x y := by
  induction reaches generalizing g with
  | nil => rfl
  | cons r reaches ih =>
      obtain ⟨hr, hreaches⟩ := List.forall_mem_cons.mp hclear
      rw [← size_pour g r] at hreaches
      rw [List.foldl_cons, ih hreaches]
      exact ((local_pour r g.size).outside g rfl).get?_eq x y hr

theorem get?_step_of_not_mem (hclear : ∀ r ∈ job.reaches, (x, y) ∉ r.area g.size) :
    (step g job).get? x y =
      (g.get? x y).map (stepCell (onBorder g.size.toNat x y) job.ocean) := by
  have hsize : (job.reaches.foldl pour g).size = g.size := size_foldl size_pour g job.reaches
  rw [step, get?_map, floodBorder, get?_mapCells, get?_pours hclear, hsize, Option.map_map]
  exact congrArg (fun f => (g.get? x y).map f) (funext fun c => settleCell_flood _ job.ocean c)

/-- A step keeps the size of the grid and the ground below every cell. Outside the areas of all
sources, a cell that is not on the border is changed only if its depth is negative or no number,
which becomes zero. The depth of one on the border depends on the cell and the level of the
ocean. -/
theorem step_local (g : Grid Cell) (job : Job) :
    (step g job).size = g.size ∧ bed (step g job) = bed g ∧
    ∀ x y c, g.get? x y = some c → (∀ r ∈ job.reaches, (x, y) ∉ r.area g.size) →
      ∃ c', (step g job).get? x y = some c' ∧
        (onBorder g.size.toNat x y → c'.depth = shoreDepth job.ocean c.ground c.depth) ∧
        (¬onBorder g.size.toNat x y →
          c'.depth = if c.depth.isNaN ∨ c.depth < 0 then 0 else c.depth) := by
  refine ⟨size_step g job, bed_step g job, fun x y c hc hclear => ?_⟩
  rw [get?_step_of_not_mem hclear, hc]
  refine ⟨_, rfl, fun hborder => ?_, fun hborder => ?_⟩
  · exact if_pos hborder
  · exact if_neg hborder

theorem step_local_corner :
    let g : Grid Cell := Grid.uniform 4 ⟨20, -1⟩
    let job : Job := ⟨[Reach.ofSource ⟨⟨1⟩, ⟨3, 3⟩, 1, 30, 50⟩ 4], 25⟩
    (∀ r ∈ job.reaches, (1, 1) ∉ r.area g.size) ∧ (∀ r ∈ job.reaches, (1, 0) ∉ r.area g.size) ∧
    (∃ c', (step g job).get? 1 1 = some c' ∧ c'.depth = 0) ∧
    (∃ c', (step g job).get? 1 0 = some c' ∧ c'.depth = 5) ∧
    ((step g job).get? 3 3).map Cell.depth = some 10 := by
  intro g job
  have hclear : ∀ r ∈ job.reaches, ¬r.covers 1 1 ∧ ¬r.covers 1 0 := by decide +kernel
  have hmiddle : ∀ r ∈ job.reaches, (1, 1) ∉ r.area g.size := fun r hr h => (hclear r hr).1 h.2.1
  have hshore : ∀ r ∈ job.reaches, (1, 0) ∉ r.area g.size := fun r hr h => (hclear r hr).2 h.2.1
  obtain ⟨-, -, hcells⟩ := step_local g job
  obtain ⟨c, hc, -, hdepth⟩ := hcells 1 1 ⟨20, -1⟩ (by decide +kernel) hmiddle
  obtain ⟨c', hc', hdepth', -⟩ := hcells 1 0 ⟨20, -1⟩ (by decide +kernel) hshore
  refine ⟨hmiddle, hshore, ⟨c, hc, ?_⟩, ⟨c', hc', ?_⟩, by decide +kernel⟩
  · rw [hdepth (by decide)]
    decide +kernel
  · rw [hdepth' (by decide)]
    decide +kernel

theorem cleanDepth_of_nonneg (hdepth : 0 ≤ depth) : cleanDepth depth = depth := by
  have hnumber : depth.isNaN = false := Single.number_of_le_right hdepth
  refine if_neg ?_
  rintro (hnan | hneg)
  · exact Bool.false_ne_true (hnumber.symm.trans hnan)
  · exact (Single.not_lt hnumber rfl).mpr hdepth hneg

theorem shoreDepth_of_not_lt (hdepth : 0 ≤ depth) (hocean : ¬depth < ocean - ground) :
    shoreDepth ocean ground depth = depth := by
  rw [shoreDepth, if_neg hocean, cleanDepth_of_nonneg hdepth]

theorem shoreDepth_of_lt (hdepth : 0 ≤ depth) (hocean : depth < ocean - ground) :
    shoreDepth ocean ground depth = ocean - ground := by
  rw [shoreDepth, if_pos hocean]
  exact cleanDepth_of_nonneg (Single.le_trans hdepth (Single.le_of_lt hocean))

theorem isLarger_shoreDepth (hdepth : 0 ≤ depth) (hnumber : (ocean - ground).isNaN = false) :
    Single.IsLarger depth (ocean - ground) (shoreDepth ocean ground depth) := by
  have hdepth' : depth.isNaN = false := Single.number_of_le_right hdepth
  by_cases hocean : depth < ocean - ground
  · rw [shoreDepth_of_lt hdepth hocean]
    exact ⟨.inr rfl, Single.le_of_lt hocean, Single.le_refl hnumber⟩
  · rw [shoreDepth_of_not_lt hdepth hocean]
    exact ⟨.inl rfl, Single.le_refl hdepth', (Single.not_lt hdepth' hnumber).mp hocean⟩

theorem shoreDepth_shoreDepth (hdepth : 0 ≤ depth) :
    shoreDepth ocean ground (shoreDepth ocean ground depth) = shoreDepth ocean ground depth := by
  by_cases hocean : depth < ocean - ground
  · have hnumber : (ocean - ground).isNaN = false := (Single.lt_iff.mp hocean).1.2
    rw [shoreDepth_of_lt hdepth hocean]
    refine shoreDepth_of_not_lt (Single.le_trans hdepth (Single.le_of_lt hocean)) ?_
    exact (Single.not_lt hnumber hnumber).mpr (Single.le_refl hnumber)
  · rw [shoreDepth_of_not_lt hdepth hocean, shoreDepth_of_not_lt hdepth hocean]

theorem stepCell_of_nonneg (hdepth : 0 ≤ c.depth)
    (hother : ¬(border ∧ (ocean - c.ground).isNaN = false)) : stepCell border ocean c = c := by
  rw [stepCell, cleanDepth_of_nonneg hdepth]
  cases border with
  | false => rfl
  | true =>
      have hocean : ¬c.depth < ocean - c.ground := fun hlt => hother ⟨rfl, (Single.lt_iff.mp hlt).1.2⟩
      rw [shoreDepth_of_not_lt hdepth hocean, if_pos rfl]

theorem stepCell_stepCell (hdepth : 0 ≤ c.depth) :
    stepCell border ocean (stepCell border ocean c) = stepCell border ocean c := by
  cases border with
  | false =>
      have hself : stepCell false ocean c = c := stepCell_of_nonneg hdepth nofun
      rw [hself, hself]
  | true => exact congrArg (Cell.mk c.ground) (shoreDepth_shoreDepth hdepth)

/-- In a step without sources, each cell on the border comes to hold the larger one of its depth and
of the depth that the ocean would have there, if that is a number. No other cell changes, and a
second step of the same kind changes nothing at all. -/
theorem step_ocean_settles (hg : Settled g) (ocean : Float32) :
    let after := step g ⟨[], ocean⟩
    after.size = g.size ∧
    (∀ x y c, g.get? x y = some c → ∃ c', after.get? x y = some c' ∧ c'.ground = c.ground ∧
      (onBorder g.size.toNat x y → (ocean - c.ground).isNaN = false →
        Single.IsLarger c.depth (ocean - c.ground) c'.depth) ∧
      (¬(onBorder g.size.toNat x y ∧ (ocean - c.ground).isNaN = false) → c' = c)) ∧
    step after ⟨[], ocean⟩ = after := by
  intro after
  have hafter (g : Grid Cell) (x y : Nat) : (step g ⟨[], ocean⟩).get? x y =
      (g.get? x y).map (stepCell (onBorder g.size.toNat x y) ocean) :=
    get?_step_of_not_mem fun _ hr => absurd hr List.not_mem_nil
  refine ⟨size_step g _, fun x y c hc => ?_, Grid.ext_get? (size_step after _) fun x y => ?_⟩
  · refine ⟨_, (hafter g x y).trans (congrArg _ hc), rfl, fun hborder hnumber => ?_, ?_⟩
    · have hdepth : (stepCell (onBorder g.size.toNat x y) ocean c).depth =
          shoreDepth ocean c.ground c.depth := if_pos hborder
      rw [hdepth]
      exact isLarger_shoreDepth (hg hc) hnumber
    · exact stepCell_of_nonneg (hg hc)
  · have hsize : after.size = g.size := size_step g _
    rw [hafter after, hafter g, hsize]
    cases hc : g.get? x y with
    | none => rfl
    | some c => exact congrArg some (stepCell_stepCell (hg hc))

theorem step_ocean_settles_abyss :
    let flat : Grid Cell := Grid.uniform 3 ⟨20, 1⟩
    let gap : Grid Cell := flat.modify 1 0 fun c => { c with ground := 0 / 0 }
    let g : Grid Cell := gap.modify 2 1 fun c => { c with ground := -inf }
    Settled g ∧ (step g ⟨[], 25⟩).get? 0 0 = some ⟨20, 5⟩ ∧
    (step g ⟨[], 25⟩).get? 1 0 = some ⟨0 / 0, 1⟩ ∧
    (step g ⟨[], 25⟩).get? 2 1 = some ⟨-inf, inf⟩ ∧
    (step g ⟨[], 25⟩).get? 1 1 = some ⟨20, 1⟩ ∧
    step (step g ⟨[], 25⟩) ⟨[], 25⟩ = step g ⟨[], 25⟩ := by
  intro flat gap g
  have hflat : Settled flat := Grid.all_uniform (by decide +kernel) 3
  have hgap : Settled gap := Grid.All.modify hflat 1 0 fun _ _ h => h
  have hg : Settled g := Grid.All.modify hgap 2 1 fun _ _ h => h
  obtain ⟨-, hcells, htwice⟩ := step_ocean_settles hg 25
  obtain ⟨c, hc, -, -, hsame⟩ := hcells 1 0 ⟨0 / 0, 1⟩ (by decide +kernel)
  refine ⟨hg, by decide +kernel, ?_, by decide +kernel, by decide +kernel, htwice⟩
  rw [hc, hsame (by decide +kernel)]

end Fluid

end Terrarium
