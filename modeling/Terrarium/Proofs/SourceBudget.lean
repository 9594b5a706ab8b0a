import Terrarium.Proofs.BrushCells
import Terrarium.Proofs.SeparateSources

/-!
The budget of a source. A source goes through the cells of its area row by row and gives each of
them what it lacks, until a cell lacks more than is left of the budget. That cell gets the rest, and
the cells after it get nothing.
-/
namespace Terrarium

namespace Cell

/-- A cell with more fluid on it. -/
def raised (c : Cell) (amount : Float32) : Cell := { c with depth := c.depth + amount }

/-- A cell with all that it lacks, if it lacks anything. -/
def filled (c : Cell) (level : Float32) : Cell :=
  if 0 < c.deficit level then c.raised (c.deficit level) else c

/-- What is left of a budget after a cell has been filled. -/
def leave (c : Cell) (level budget : Float32) : Float32 :=
  if 0 < c.deficit level then budget - c.deficit level else budget

end Cell

namespace Reach

/-- The cells that a source can fill, row by row: those of its rectangle that are on a grid and no
further away than its radius. -/
def areaCells (r : Reach) (size : UInt32) : List (Nat × Nat) :=
  r.rect.cells.filter fun p =>
    (Point.ofCell p.1 p.2).distance r.pos ≤ r.radius ∧ p.1 < size.toNat ∧ p.2 < size.toNat

theorem pairwise_areaCells (r : Reach) (size : UInt32) :
    (r.areaCells size).Pairwise Rect.Precedes := r.rect.pairwise_cells.filter _

theorem areaCells_ofSource (s : Source) (mapped size : UInt32) :
    (ofSource s mapped).areaCells size = (ofSource s mapped).rect.cells.filter fun p =>
      (ofSource s mapped).covers p.1 p.2 ∧ p.1 < size.toNat ∧ p.2 < size.toNat := by
  refine List.filter_congr fun p hp => decide_eq_decide.mpr (and_congr_left' ?_)
  exact (covers_ofSource hp).symm

theorem mem_areaCells_ofSource {s : Source} {mapped size : UInt32} {p : Nat × Nat} :
    p ∈ (ofSource s mapped).areaCells size ↔ p ∈ (ofSource s mapped).area size := by
  rw [areaCells_ofSource, List.mem_filter, decide_eq_true_iff]
  exact Iff.rfl

end Reach

namespace Fluid

open Grid

/-- What is left of a budget after cells of a grid have been filled one after the other. -/
def budgetAfter (g : Grid Cell) (level budget : Float32) (cells : List (Nat × Nat)) : Float32 :=
  (cells.filterMap fun p => g.get? p.1 p.2).foldl (fun left c => c.leave level left) budget

/-- A budget that is shared out over cells in their order. The cells before the cut are filled. The
cell at the cut, if there is one, lacks more than is left for it, or what it lacks is no number, and
it gets all that is left. The cells after the cut get nothing; if no cell is cut off, then there are
such cells only because nothing was left for them. -/
structure Shares (level budget : Float32) (before : List (Nat × Nat)) (cut : Option (Nat × Nat))
    (after : List (Nat × Nat)) (g h : Grid Cell) : Prop where
  filled : ∀ p ∈ before, h.get? p.1 p.2 = (g.get? p.1 p.2).map fun c => c.filled level
  rest : ∀ p, cut = some p → ∃ c, g.get? p.1 p.2 = some c ∧ 0 < budgetAfter g level budget before ∧
    ¬c.deficit level ≤ budgetAfter g level budget before ∧
    h.get? p.1 p.2 = some (c.raised (budgetAfter g level budget before))
  spared : ∀ p ∈ after, h.get? p.1 p.2 = g.get? p.1 p.2
  spent : cut = none → after = [] ∨ budgetAfter g level budget before ≤ 0

variable {r : Reach} {g h : Grid Cell} {budget level : Float32} {p q : Nat × Nat} {c : Cell}

theorem get?_pourCell_of_ne (hq : q ≠ p) (r : Reach) (g : Grid Cell) (budget : Float32) :
    (pourCell r (g, budget) p).1.get? q.1 q.2 = g.get? q.1 q.2 := by
  rcases pourCell_cases r g budget p with hsame | ⟨c, -, -, -, -, hpour⟩
  · rw [hsame]
  · rw [hpour, get?_modify, if_neg]
    exact fun hp => hq (Prod.ext hp.1 hp.2)

theorem pourCell_spent (hbudget : budget ≤ 0) (r : Reach) (g : Grid Cell) (p : Nat × Nat) :
    pourCell r (g, budget) p = (g, budget) := by
  rcases pourCell_cases r g budget p with hsame | ⟨c, -, -, hpos, -⟩
  · exact hsame
  · exact absurd hbudget hpos

theorem pourCell_outside_area
    (hp : ¬(r.covers p.1 p.2 ∧ p.1 < g.size.toNat ∧ p.2 < g.size.toNat)) (budget : Float32) :
    pourCell r (g, budget) p = (g, budget) := by
  rcases pourCell_cases r g budget p with hsame | ⟨c, hc, hcovers, -⟩
  · exact hsame
  · exact absurd ⟨hcovers, get?_isSome.mp (Option.isSome_of_eq_some hc)⟩ hp

/-- A cell in the area gets the smaller one of what it lacks and what is left, if both are not at
most zero. -/
theorem pourCell_inside_area (hcovers : r.covers p.1 p.2) (hc : g.get? p.1 p.2 = some c)
    (hbudget : ¬budget ≤ 0) (hdeficit : ¬c.deficit r.level ≤ 0) :
    (pourCell r (g, budget) p).1.get? p.1 p.2 =
        some (c.raised (Single.smaller (c.deficit r.level) budget)) ∧
      (pourCell r (g, budget) p).2 = budget - Single.smaller (c.deficit r.level) budget := by
  have hpour : ¬(budget ≤ 0 || !r.covers p.1 p.2) = true := by
    rw [hcovers, Bool.not_true, Bool.or_false, decide_eq_true_iff]
    exact hbudget
  rw [pourCell]
  dsimp only
  rw [if_neg hpour, hc]
  dsimp only
  rw [if_neg hdeficit, get?_modify, if_pos ⟨rfl, rfl⟩, hc]
  exact ⟨rfl, rfl⟩

theorem pourCell_filled (hcovers : r.covers p.1 p.2) (hc : g.get? p.1 p.2 = some c)
    (hbudget : 0 < budget) (hfits : c.deficit r.level ≤ budget) :
    (pourCell r (g, budget) p).1.get? p.1 p.2 = some (c.filled r.level) ∧
      (pourCell r (g, budget) p).2 = c.leave r.level budget := by
  have hnumber : (c.deficit r.level).isNaN = false := Single.number_of_le_left hfits
  by_cases hdeficit : c.deficit r.level ≤ 0
  · have hnothing : ¬0 < c.deficit r.level := (Single.not_lt rfl hnumber).mpr hdeficit
    rw [Cell.filled, Cell.leave, if_neg hnothing, if_neg hnothing]
    rcases pourCell_cases r g budget p with hsame | ⟨c', hc', -, -, hlacks, -⟩
    · rw [hsame]
      exact ⟨hc, rfl⟩
    · obtain rfl := Option.some.inj (hc.symm.trans hc')
      exact absurd hdeficit hlacks
  · have hlacks : 0 < c.deficit r.level := (Single.not_le hnumber rfl).mp hdeficit
    have hpos : ¬budget ≤ 0 := (Single.not_le (Single.number_of_le_right hfits) rfl).mpr hbudget
    rw [Cell.filled, Cell.leave, if_pos hlacks, if_pos hlacks]
    have hpour := pourCell_inside_area hcovers hc hpos hdeficit
    rwa [Single.smaller_of_le hfits] at hpour

theorem pourCell_rest (hcovers : r.covers p.1 p.2) (hc : g.get? p.1 p.2 = some c)
    (hbudget : 0 < budget) (hfinite : budget.isFinite) (hlacks : ¬c.deficit r.level ≤ budget) :
    (pourCell r (g, budget) p).1.get? p.1 p.2 = some (c.raised budget) ∧
      (pourCell r (g, budget) p).2 = 0 := by
  have hnumber : budget.isNaN = false := Single.number_of_isFinite hfinite
  have hpos : ¬budget ≤ 0 := (Single.not_le hnumber rfl).mpr hbudget
  have hdeficit : ¬c.deficit r.level ≤ 0 := fun h =>
    hlacks (Single.le_trans h (Single.le_of_lt hbudget))
  have hpour := pourCell_inside_area hcovers hc hpos hdeficit
  rwa [Single.smaller_of_not_le hnumber hlacks, Single.sub_self hfinite] at hpour

theorem budget_pourCell (hbudget : 0 ≤ budget) (hfinite : budget.isFinite) (r : Reach)
    (g : Grid Cell) (p : Nat × Nat) :
    0 ≤ (pourCell r (g, budget) p).2 ∧ (pourCell r (g, budget) p).2.isFinite := by
  rcases pourCell_cases r g budget p with hsame | ⟨c, -, -, -, hdeficit, hpour⟩
  · rw [hsame]
    exact ⟨hbudget, hfinite⟩
  · rw [hpour]
    dsimp only
    by_cases hfits : c.deficit r.level ≤ budget
    · have hlacks : 0 < c.deficit r.level :=
        (Single.not_le (Single.number_of_le_left hfits) rfl).mp hdeficit
      rw [Single.smaller_of_le hfits]
      exact Single.sub_between (Single.le_of_lt hlacks) hfits hfinite
    · rw [Single.smaller_of_not_le (Single.number_of_le_right hbudget) hfits,
        Single.sub_self hfinite]
      exact ⟨Single.le_refl rfl, rfl⟩

theorem foldl_pourCell_spent (hbudget : budget ≤ 0) (r : Reach) (g : Grid Cell)
    (cells : List (Nat × Nat)) : cells.foldl (pourCell r) (g, budget) = (g, budget) := by
  induction cells with
  | nil => rfl
  | cons p cells ih => rw [List.foldl_cons, pourCell_spent hbudget, ih]

theorem get?_foldl_pourCell_of_not_mem (r : Reach) (state : Grid Cell × Float32)
    {cells : List (Nat × Nat)} (hq : q ∉ cells) :
    (cells.foldl (pourCell r) state).1.get? q.1 q.2 = state.1.get? q.1 q.2 := by
  induction cells generalizing state with
  | nil => rfl
  | cons p cells ih =>
      rw [List.mem_cons, not_or] at hq
      rw [List.foldl_cons, ih _ hq.2, get?_pourCell_of_ne hq.1 r state.1 state.2]

theorem budget_foldl_pourCell (hbudget : 0 ≤ budget) (hfinite : budget.isFinite) (r : Reach)
    (g : Grid Cell) (cells : List (Nat × Nat)) :
    0 ≤ (cells.foldl (pourCell r) (g, budget)).2 := by
  induction cells generalizing g budget with
  | nil => exact hbudget
  | cons p cells ih =>
      obtain ⟨hnext, hfinite'⟩ := budget_pourCell hbudget hfinite r g p
      exact ih hnext hfinite' (pourCell r (g, budget) p).1

theorem budgetAfter_cons (hc : g.get? p.1 p.2 = some c) (level budget : Float32)
    (cells : List (Nat × Nat)) :
    budgetAfter g level budget (p :: cells) = budgetAfter g level (c.leave level budget) cells := by
  have hcells : (p :: cells).filterMap (fun q => g.get? q.1 q.2) =
      c :: cells.filterMap fun q => g.get? q.1 q.2 := List.filterMap_cons_some hc
  rw [budgetAfter, hcells]
  rfl

theorem budgetAfter_congr {cells : List (Nat × Nat)}
    (hgh : ∀ q ∈ cells, g.get? q.1 q.2 = h.get? q.1 q.2) (level budget : Float32) :
    budgetAfter g level budget cells = budgetAfter h level budget cells := by
  rw [budgetAfter, List.filterMap_congr hgh]
  rfl

section Shares

variable {before after : List (Nat × Nat)} {cut : Option (Nat × Nat)} {g' : Grid Cell}

theorem Shares.congr (hshares : Shares level budget before cut after g' h)
    (hg : ∀ q ∈ before ++ cut.toList ++ after, g'.get? q.1 q.2 = g.get? q.1 q.2) :
    Shares level budget before cut after g h := by
  simp only [List.mem_append, or_imp, forall_and] at hg
  obtain ⟨⟨hbefore, hcut⟩, hafter⟩ := hg
  have hleft := budgetAfter_congr hbefore level budget
  obtain ⟨hfilled, hrest, hspared, hspent⟩ := hshares
  rw [hleft] at hrest hspent
  refine ⟨fun q hq => ?_, fun q hq => ?_, fun q hq => ?_, hspent⟩
  · rw [hfilled q hq, hbefore q hq]
  · obtain ⟨c, hc, hdivided⟩ := hrest q hq
    have hmem : q ∈ cut.toList := Option.mem_toList.mpr hq
    exact ⟨c, (hcut q hmem).symm.trans hc, hdivided⟩
  · rw [hspared q hq, hafter q hq]

theorem Shares.cons (hc : g.get? p.1 p.2 = some c)
    (hp : h.get? p.1 p.2 = some (c.filled level))
    (hshares : Shares level (c.leave level budget) before cut after g h) :
    Shares level budget (p :: before) cut after g h := by
  obtain ⟨hfilled, hrest, hspared, hspent⟩ := hshares
  rw [← budgetAfter_cons hc] at hrest hspent
  refine ⟨List.forall_mem_cons.mpr ⟨?_, hfilled⟩, hrest, hspared, hspent⟩
  rw [hp, hc, Option.map_some]

theorem shares_spent (hbudget : budget ≤ 0) (level : Float32) (cells : List (Nat × Nat))
    (g : Grid Cell) : Shares level budget [] none cells g g :=
  ⟨fun _ hq => absurd hq List.not_mem_nil, nofun, fun _ _ => rfl, fun _ => .inr hbudget⟩

variable {cells : List (Nat × Nat)}

/-- A cell for which the budget reaches goes before the cut. -/
theorem Shares.pour_filled (hcovers : r.covers p.1 p.2) (hc : g.get? p.1 p.2 = some c)
    (hbudget : 0 < budget) (hfits : c.deficit r.level ≤ budget) (hp : p ∉ cells)
    (hcells : ∀ q ∈ before ++ cut.toList ++ after, q ∈ cells)
    (hshares : Shares r.level (pourCell r (g, budget) p).2 before cut after
      (pourCell r (g, budget) p).1 (cells.foldl (pourCell r) (pourCell r (g, budget) p)).1) :
    Shares r.level budget (p :: before) cut after g
      ((p :: cells).foldl (pourCell r) (g, budget)).1 := by
  obtain ⟨hfilled, hleave⟩ := pourCell_filled hcovers hc hbudget hfits
  rw [hleave] at hshares
  have hkept := get?_foldl_pourCell_of_not_mem r (pourCell r (g, budget) p) hp
  refine .cons hc (hkept.trans hfilled) (hshares.congr fun q hq => ?_)
  exact get?_pourCell_of_ne (ne_of_mem_of_not_mem (hcells q hq) hp) r g budget

/-- A cell for which the budget does not reach is at the cut. -/
theorem shares_pour_rest (hcovers : r.covers p.1 p.2) (hc : g.get? p.1 p.2 = some c)
    (hbudget : 0 < budget) (hfinite : budget.isFinite) (hlacks : ¬c.deficit r.level ≤ budget)
    (hp : p ∉ cells) (hafter : ∀ q ∈ after, q ∈ cells) :
    Shares r.level budget [] (some p) after g
      ((p :: cells).foldl (pourCell r) (g, budget)).1 := by
  obtain ⟨hrest, hleave⟩ := pourCell_rest hcovers hc hbudget hfinite hlacks
  have hspent : (pourCell r (g, budget) p).2 ≤ 0 := by
    rw [hleave]
    exact Single.le_refl rfl
  rw [List.foldl_cons, foldl_pourCell_spent hspent r (pourCell r (g, budget) p).1 cells]
  refine ⟨fun _ hq => absurd hq List.not_mem_nil, ?_, fun q hq => ?_, nofun⟩
  · rintro q ⟨⟩
    exact ⟨c, hc, hbudget, hlacks, hrest⟩
  · exact get?_pourCell_of_ne (ne_of_mem_of_not_mem (hafter q hq) hp) r g budget

end Shares

/-- Among cells in a row, of which none comes twice, there is a cut where the budget ends. -/
theorem exists_shares {size : UInt32} (r : Reach) {cells : List (Nat × Nat)} (hnodup : cells.Nodup)
    (hg : g.size = size) (hfinite : budget.isFinite) :
    ∃ before cut after,
      cells.filter (fun p => r.covers p.1 p.2 ∧ p.1 < size.toNat ∧ p.2 < size.toNat) =
        before ++ cut.toList ++ after ∧
      Shares r.level budget before cut after g (cells.foldl (pourCell r) (g, budget)).1 := by
  induction cells generalizing g budget with
  | nil =>
      exact ⟨[], none, [], rfl, fun _ hq => absurd hq List.not_mem_nil, nofun, fun _ _ => rfl,
        fun _ => .inl rfl⟩
  | cons p cells ih =>
      obtain ⟨hp, hcells⟩ := List.nodup_cons.mp hnodup
      by_cases hspent : budget ≤ 0
      · rw [foldl_pourCell_spent hspent]
        exact ⟨[], none, _, rfl, shares_spent hspent r.level _ g⟩
      have hbudget : 0 < budget :=
        (Single.not_le (Single.number_of_isFinite hfinite) rfl).mp hspent
      by_cases harea : r.covers p.1 p.2 ∧ p.1 < size.toNat ∧ p.2 < size.toNat
      · rw [List.filter_cons, if_pos (decide_eq_true harea)]
        obtain ⟨c, hc⟩ := Option.isSome_iff_exists.mp (get?_isSome.mpr (hg ▸ harea.2))
        by_cases hfits : c.deficit r.level ≤ budget
        · obtain ⟨-, hfinite'⟩ := budget_pourCell (Single.le_of_lt hbudget) hfinite r g p
          have hsize : (pourCell r (g, budget) p).1.size = size := (size_pourCell r _ p).trans hg
          obtain ⟨before, cut, after, hsplit, hshares⟩ := ih hcells hsize hfinite'
          refine ⟨p :: before, cut, after, congrArg (p :: ·) hsplit, ?_⟩
          refine .pour_filled harea.1 hc hbudget hfits hp (fun q hq => ?_) hshares
          exact List.mem_of_mem_filter (hsplit ▸ hq)
        · refine ⟨[], some p, _, rfl, shares_pour_rest harea.1 hc hbudget hfinite hfits hp ?_⟩
          exact fun q hq => List.mem_of_mem_filter hq
      · rw [List.filter_cons, if_neg (mt of_decide_eq_true harea), List.foldl_cons,
          pourCell_outside_area (hg ▸ harea) budget]
        exact ih hcells hg hfinite

/-- A mapped source with a finite capacity fills the cells of its area up to its level, one after
the other in row order, until a cell lacks more than is left: there the budget is cut off. Other
cells do not change, and none do if the capacity is not above zero. If it is, then the budget is
never negative on the way. -/
theorem pour_shares (s : Source) (mapped : UInt32) (g : Grid Cell)
    (hfinite : s.capacity.isFinite) :
    let r := Reach.ofSource s mapped
    (r.areaCells g.size).Pairwise Rect.Precedes ∧
    (∃ before cut after, r.areaCells g.size = before ++ cut.toList ++ after ∧
      Shares s.level s.capacity before cut after g (pour g r)) ∧
    (∀ x y, (x, y) ∉ r.areaCells g.size → (pour g r).get? x y = g.get? x y) ∧
    (s.capacity ≤ 0 → pour g r = g) ∧
    (0 < s.capacity →
      ∀ n, 0 ≤ ((r.rect.cells.take n).foldl (pourCell r) (g, s.capacity)).2) := by
  intro r
  refine ⟨r.pairwise_areaCells g.size, ?_, ?_, ?_, ?_⟩
  · rw [Reach.areaCells_ofSource]
    exact exists_shares r (Rect.nodup_cells _) rfl hfinite
  · intro x y hp
    rw [Reach.mem_areaCells_ofSource] at hp
    exact ((local_pour r g.size).outside g rfl).get?_eq x y hp
  · intro hspent
    exact congrArg Prod.fst (foldl_pourCell_spent hspent r g r.rect.cells)
  · intro hbudget n
    exact budget_foldl_pourCell (Single.le_of_lt hbudget) hfinite r g _

theorem pour_shares_five :
    let s : Source := ⟨⟨1⟩, ⟨1, 1⟩, 1, 12, 3⟩
    let r := Reach.ofSource s 3
    let g : Grid Cell := Grid.uniform 3 ⟨10, 0⟩
    s.capacity.isFinite ∧ r.areaCells 3 = [(1, 0), (0, 1), (1, 1), (2, 1), (1, 2)] ∧
    (pour g r).toList.map Cell.depth = [0, 2, 0, 1, 0, 0, 0, 0, 0] ∧
    (∃ before cut after, r.areaCells 3 = before ++ cut.toList ++ after ∧
      Shares s.level s.capacity before cut after g (pour g r)) ∧
    0 < s.capacity ∧ ∀ n, 0 ≤ ((r.rect.cells.take n).foldl (pourCell r) (g, s.capacity)).2 := by
  intro s r g
  have hfinite : s.capacity.isFinite := by decide +kernel
  have hcapacity : 0 < s.capacity := by decide +kernel
  obtain ⟨-, hshares, -, -, hbudget⟩ := pour_shares s 3 g hfinite
  exact ⟨hfinite, by decide +kernel, by decide +kernel, hshares, hcapacity, hbudget hcapacity⟩

end Fluid

end Terrarium
