import Terrarium.Proofs.BrushCells
import Terrarium.Proofs.GroundHeights

namespace Terrarium

namespace HeightMap

variable {g g' : Grid Float32} {x y i j : Nat}

/-- Whether a cell is within three columns and rows of another one. -/
def Near (x y i j : Nat) : Prop := (i ≤ x + 3 ∧ x ≤ i + 3) ∧ j ≤ y + 3 ∧ y ≤ j + 3

theorem near_of_mem_around {size : UInt32} (h : (i, j) ∈ around size x y) : Near x y i j := by
  obtain ⟨v, hv, hp⟩ := List.mem_flatMap.mp h
  obtain ⟨u, hu, hp⟩ := List.mem_map.mp hp
  obtain ⟨rfl, rfl⟩ := Prod.mk.inj hp
  rw [smoothWindow, List.mem_range'_1] at hu hv
  rw [Near]
  omega

theorem average_congr (hsize : g.size = g'.size)
    (hget : ∀ i j, Near x y i j → g.get? i j = g'.get? i j) : average g x y = average g' x y := by
  have hsums : (around g.size x y).foldl (weigh g x y) (0, 0) =
      (around g'.size x y).foldl (weigh g' x y) (0, 0) := by
    rw [hsize]
    apply List.foldl_ext
    rintro s ⟨i, j⟩ hp
    rw [weigh, weigh, hget i j (near_of_mem_around hp)]
  rw [average_eq, average_eq, hsums]

end HeightMap

namespace Brush

variable {α : Type} {b : Brush} {r : Rect} {g g' : Grid α}
  {rule : Grid α → Nat → Nat → Float32 → Grid α} {x y i j : Nat}

def stroke (b : Brush) (rule : Grid α → Nat → Nat → Float32 → Grid α) (g : Grid α)
    (p : Nat × Nat) : Grid α :=
  match b.weight? p.1 p.2 with
  | some d => rule g p.1 p.2 d
  | none => g

/-- A rule that changes no cell but the one it is given. -/
structure LocalRule (rule : Grid α → Nat → Nat → Float32 → Grid α) : Prop where
  size_eq : ∀ g x y d, (rule g x y d).size = g.size
  get?_of_ne : ∀ g x y d i j, ¬(i = x ∧ j = y) → (rule g x y d).get? i j = g.get? i j

theorem LocalRule.get?_stroke (hrule : LocalRule rule) (b : Brush) (g : Grid α) (p : Nat × Nat)
    (hne : p ≠ (i, j)) : (b.stroke rule g p).get? i j = g.get? i j := by
  rw [stroke]
  split
  · apply hrule.get?_of_ne
    rintro ⟨rfl, rfl⟩
    exact hne rfl
  · rfl

/-- What a grid holds while it is painted, right before it is a cell's turn. -/
structure Stage (r : Rect) (x y : Nat) (old new stage : Grid α) : Prop where
  size : stage.size = old.size
  get? : ∀ i j, stage.get? i j =
    if (i, j) ∈ r.cells ∧ Rect.Precedes (i, j) (x, y) then new.get? i j else old.get? i j

/-- A painted grid: its cells in the square of the brush, and no others, are those of a rectangle
that was painted by a rule, row by row and each once. -/
structure Painted (b : Brush) (r : Rect) (rule : Grid α → Nat → Nat → Float32 → Grid α)
    (old new : Grid α) : Prop where
  size : new.size = old.size
  cells : ∀ x y, (x, y) ∈ r.cells ↔ b.Touches old.size x y
  ordered : r.cells.Pairwise Rect.Precedes
  painted : new = r.cells.foldl (b.stroke rule) old
  others : ∀ x y, ¬b.Touches old.size x y → new.get? x y = old.get? x y

theorem LocalRule.painted (hrule : LocalRule rule) (hfoot : b.footprint g.size = .ok r) :
    b.Painted r rule g (b.paint r rule g) := by
  obtain ⟨-, rfl⟩ := footprint_eq_ok hfoot
  refine ⟨b.size_paint _ hrule.size_eq g, fun x y => mem_onGrid, Rect.pairwise_cells _, rfl, ?_⟩
  intro x y houtside
  exact Grid.get?_foldl_of_not_mem (fun g p => hrule.get?_stroke b g p) g
    (mt mem_onGrid.mp houtside)

end Brush

open HeightMap

/-- The brush with which an operation paints ground or fluid. -/
def Operation.brush? : Operation → Option Brush
  | .terraformRaise b | .terraformLevel b _ | .terraformSmooth b | .terraformRamp b .. |
    .fluidRaise b => some b
  | _ => none

namespace World

variable {w v : World} {b : Brush} {delta : Delta}

end World

namespace World

variable {w v : World} {b : Brush} {delta : Delta} {op : Operation}

end World

end Terrarium
