import Mathlib.Data.List.Nodup
import Terrarium.Proofs.GridCells
import Terrarium.Proofs.GridSize
import Terrarium.Proofs.PoolWords
import Terrarium.Proofs.RectCells

namespace Terrarium

namespace Word

/-- A number that has to fit into a word of some bits without a sign. -/
def unsigned? (bits n : Nat) : Option Nat := if n < 2 ^ bits then some n else none

/-- A number that has to fit into a word of 64 bits with a sign. -/
def signed? (n : Int) : Option Int := if -2 ^ 63 ≤ n ∧ n < 2 ^ 63 then some n else none

/-- The difference of two words without a sign. -/
def difference? (m n : Nat) : Option Nat := if n ≤ m then some (m - n) else none

/-- A word with a sign, read as one without. -/
def reread (n : Int) : Nat := (n % 2 ^ 64).toNat

/-- A number held in the range of words with a sign. -/
def saturated (n : Int) : Int := max (-2 ^ 63) (min n (2 ^ 63 - 1))

theorem unsigned?_eq {bits n : Nat} (h : n < 2 ^ bits) : unsigned? bits n = some n := if_pos h

theorem signed?_eq {n : Int} (h : 0 ≤ n ∧ n < 2 ^ 63) : signed? n = some n :=
  if_pos ⟨by omega, h.2⟩

theorem reread_eq {n : Int} (h : 0 ≤ n ∧ n < 2 ^ 63) : reread n = n.toNat := by
  rw [reread, Int.emod_eq_of_lt h.1 (by omega)]

theorem mul_self_lt (size : UInt32) : size.toNat * size.toNat < 2 ^ 64 :=
  calc size.toNat * size.toNat < 2 ^ 32 * 2 ^ 32 := Nat.mul_lt_mul'' size.toNat_lt size.toNat_lt
    _ = 2 ^ 64 := by decide

end Word

/-- Where each step of a checked run does what the step of a plain run does, the checked run goes
through and ends where the plain one does. -/
theorem foldlM_eq_some {α β ι : Type} (embed : α → β) {P : α → Prop} {step : α → ι → α}
    {step? : β → ι → Option β} {items : List ι}
    (hstep : ∀ a i, i ∈ items → P a → step? (embed a) i = some (embed (step a i)) ∧ P (step a i))
    {a : α} (ha : P a) :
    items.foldlM step? (embed a) = some (embed (items.foldl step a)) := by
  induction items generalizing a with
  | nil => rfl
  | cons i items ih =>
      obtain ⟨hfirst, hnext⟩ := hstep a i List.mem_cons_self ha
      rw [List.foldlM_cons, hfirst]
      exact ih (fun a j hj => hstep a j (List.mem_cons_of_mem i hj)) hnext

theorem foldlM_eq_some_of_forall {α β ι : Type} (embed : α → β) {step : α → ι → α}
    {step? : β → ι → Option β} (hstep : ∀ a i, step? (embed a) i = some (embed (step a i)))
    (a : α) (items : List ι) :
    items.foldlM step? (embed a) = some (embed (items.foldl step a)) :=
  foldlM_eq_some embed (P := fun _ => True) (fun a i _ _ => ⟨hstep a i, trivial⟩) trivial

/-- A square of cells in an array of any length. -/
structure Raster (α : Type) where
  size : UInt32
  cells : Array α

namespace Raster

variable {α β : Type}

def ofGrid (g : Grid α) : Raster α := ⟨g.size, g.cells⟩

/-- The place of a cell in row order. -/
def index? (r : Raster α) (x y : Nat) : Option Nat := do
  let row ← Word.unsigned? 64 (y * r.size.toNat)
  Word.unsigned? 64 (row + x)

/-- The value of a cell. The program stops if the cell is not there. -/
def read? (r : Raster α) (x y : Nat) : Option α := do
  let i ← r.index? x y
  r.cells[i]?

/-- Changes a cell. The program stops if the cell is not there. -/
def change? (r : Raster α) (x y : Nat) (f : α → α) : Option (Raster α) := do
  let i ← r.index? x y
  if i < r.cells.size then some { r with cells := r.cells.modify i f } else none

/-- The value of a cell, if it is there. -/
def cell? (r : Raster α) (x y : Nat) : Option (Option α) :=
  if x < r.size.toNat ∧ y < r.size.toNat then (r.index? x y).map fun i => r.cells[i]?
  else some none

/-- Changes a cell, if it is there. -/
def changeCell? (r : Raster α) (x y : Nat) (f : α → α) : Option (Raster α) :=
  if x < r.size.toNat ∧ y < r.size.toNat then
    (r.index? x y).map fun i => { r with cells := r.cells.modify i f }
  else some r

def map (r : Raster α) (f : α → β) : Raster β := ⟨r.size, r.cells.map f⟩

variable {g : Grid α} {x y : Nat}

theorem index?_ofGrid (hx : x < g.size.toNat) (hy : y < g.size.toNat) :
    (ofGrid g).index? x y = some (y * g.size.toNat + x) := by
  have hindex := Grid.index_lt hx hy
  have hsquare := Word.mul_self_lt g.size
  have hrow : y * g.size.toNat < 2 ^ 64 := by omega
  rw [index?]
  change (Word.unsigned? 64 (y * g.size.toNat)).bind _ = _
  rw [Word.unsigned?_eq hrow]
  exact Word.unsigned?_eq (hindex.trans hsquare)

theorem read?_ofGrid (hx : x < g.size.toNat) (hy : y < g.size.toNat) :
    (ofGrid g).read? x y = g.get? x y := by
  rw [read?, index?_ofGrid hx hy, Grid.get?_eq, if_pos ⟨hx, hy⟩]
  rfl

theorem change?_ofGrid (hx : x < g.size.toNat) (hy : y < g.size.toNat) (f : α → α) :
    (ofGrid g).change? x y f = some (ofGrid (g.modify x y f)) := by
  have hplace : y * g.size.toNat + x < g.cells.size := g.size_cells ▸ Grid.index_lt hx hy
  rw [change?, index?_ofGrid hx hy, Grid.modify, if_pos ⟨hx, hy⟩]
  exact if_pos hplace

@[simp] theorem cell?_ofGrid (g : Grid α) (x y : Nat) :
    (ofGrid g).cell? x y = some (g.get? x y) := by
  rw [Grid.get?_eq, cell?]
  change (if x < g.size.toNat ∧ y < g.size.toNat then _ else _) = _
  split
  · rename_i hcell
    rw [index?_ofGrid hcell.1 hcell.2]
    rfl
  · rfl

@[simp] theorem changeCell?_ofGrid (g : Grid α) (x y : Nat) (f : α → α) :
    (ofGrid g).changeCell? x y f = some (ofGrid (g.modify x y f)) := by
  rw [Grid.modify, changeCell?]
  change (if x < g.size.toNat ∧ y < g.size.toNat then _ else _) = _
  split
  · rename_i hcell
    rw [index?_ofGrid hcell.1 hcell.2]
    rfl
  · rfl

end Raster

theorem Rect.nodup_cells (r : Rect) : r.cells.Nodup := by
  refine List.nodup_flatMap.mpr ⟨?_, ?_⟩
  · intro y _
    exact (List.nodup_range' (s := r.x0.toNat)).map fun a b h => (Prod.mk.inj h).1
  · refine (List.nodup_range' (s := r.y0.toNat) (n := r.height.toNat)).imp ?_
    intro a b hne p ha hb
    obtain ⟨u, -, rfl⟩ := List.mem_map.mp ha
    obtain ⟨v, -, hv⟩ := List.mem_map.mp hb
    exact hne (Prod.mk.inj hv).2.symm

namespace Grid

variable {α : Type}

theorem get?_foldl_modify (f : Nat → Nat → α → α) (g : Grid α) {cells : List (Nat × Nat)}
    (hcells : cells.Nodup) (x y : Nat) :
    (cells.foldl (fun g p => g.modify p.1 p.2 (f p.1 p.2)) g).get? x y =
      if (x, y) ∈ cells then (g.get? x y).map (f x y) else g.get? x y := by
  induction cells generalizing g with
  | nil => rfl
  | cons p cells ih =>
      obtain ⟨hp, hrest⟩ := List.nodup_cons.mp hcells
      rw [List.foldl_cons, ih _ hrest, get?_modify]
      by_cases hxy : (x, y) = p
      · subst hxy
        simp [hp]
      · have hne : ¬(x = p.1 ∧ y = p.2) := fun h => hxy (Prod.ext h.1 h.2)
        simp [hxy, hne]

theorem modify_self {g : Grid α} (x y : Nat) {f : α → α} (hf : ∀ a, f a = a) :
    g.modify x y f = g := by
  refine ext_get? (g.size_modify x y f) fun i j => ?_
  rw [get?_modify, funext hf]
  split
  · exact Option.map_id'
  · rfl

theorem modify_of_none {g : Grid α} {x y : Nat} (h : g.get? x y = none) (f : α → α) :
    g.modify x y f = g := by
  refine if_neg fun hcell => ?_
  rw [← get?_isSome, h] at hcell
  exact Bool.false_ne_true hcell

theorem foldl_modify_full (f : Nat → Nat → α → α) (g : Grid α) :
    (Rect.full g.size).cells.foldl (fun g p => g.modify p.1 p.2 (f p.1 p.2)) g =
      g.mapCells f := by
  refine ext_get? (size_foldl (fun g p => g.size_modify _ _ _) g _) fun x y => ?_
  rw [get?_foldl_modify f g (Rect.nodup_cells _), get?_mapCells]
  split
  · rfl
  · rename_i hmem
    rw [get?_eq_none]
    · rfl
    · simpa [Rect.mem_cells, Rect.full] using hmem

end Grid

end Terrarium
