import Terrarium.Plane.Grid

namespace Terrarium.Grid

variable {α β : Type}

attribute [ext] Grid

theorem get?_eq (g : Grid α) (x y : Nat) :
    g.get? x y =
      if x < g.size.toNat ∧ y < g.size.toNat then g.cells[y * g.size.toNat + x]? else none := by
  rw [get?, index?]
  split
  · rename_i hcell
    have hlt : y * g.size.toNat + x < g.cells.size := g.size_cells ▸ index_lt hcell.1 hcell.2
    rw [Array.getElem?_eq_getElem hlt]
    rfl
  · rfl

theorem get?_isSome {g : Grid α} {x y : Nat} :
    (g.get? x y).isSome ↔ x < g.size.toNat ∧ y < g.size.toNat := by
  rw [get?, index?, Option.isSome_map]
  split
  · rename_i hcell
    exact iff_of_true rfl hcell
  · rename_i hcell
    exact iff_of_false (by simp) hcell

theorem index_mod {x n : Nat} (hx : x < n) (y : Nat) : (y * n + x) % n = x :=
  Nat.mul_add_mod_of_lt hx

theorem index_div {x n : Nat} (hx : x < n) (y : Nat) : (y * n + x) / n = y := by
  rw [Nat.mul_comm, Nat.mul_add_div (Nat.zero_lt_of_lt hx), Nat.div_eq_of_lt hx, Nat.add_zero]

theorem index_inj {x y i j n : Nat} (hx : x < n) (hi : i < n) (h : y * n + x = j * n + i) :
    x = i ∧ y = j := by
  constructor
  · rw [← index_mod hx y, h, index_mod hi j]
  · rw [← index_div hx y, h, index_div hi j]

@[simp] theorem get?_modify (g : Grid α) (x y i j : Nat) (f : α → α) :
    (g.modify x y f).get? i j = if i = x ∧ j = y then (g.get? i j).map f else g.get? i j := by
  by_cases hcell : x < g.size.toNat ∧ y < g.size.toNat
  · have hmodify : g.modify x y f = g.modifyAt (y * g.size.toNat + x) f := if_pos hcell
    rw [hmodify, get?_eq, get?_eq]
    change (if i < g.size.toNat ∧ j < g.size.toNat then
      (g.cells.modify (y * g.size.toNat + x) f)[j * g.size.toNat + i]? else none) = _
    split
    · rename_i hplace
      rw [Array.getElem?_modify]
      by_cases hsame : i = x ∧ j = y
      · rw [if_pos hsame, if_pos (by rw [hsame.1, hsame.2])]
      · rw [if_neg hsame, if_neg]
        intro hindex
        obtain ⟨hx, hy⟩ := index_inj hcell.1 hplace.1 hindex
        exact hsame ⟨hx.symm, hy.symm⟩
    · split <;> rfl
  · have hmodify : g.modify x y f = g := if_neg hcell
    rw [hmodify]
    split
    · rename_i hsame
      have hnone : g.get? i j = none := by
        rw [get?_eq, hsame.1, hsame.2, if_neg hcell]
      rw [hnone]
      rfl
    · rfl

@[simp] theorem get?_map (g : Grid α) (f : α → β) (x y : Nat) :
    (g.map f).get? x y = (g.get? x y).map f := by
  rw [get?_eq, get?_eq]
  change (if x < g.size.toNat ∧ y < g.size.toNat then
    (g.cells.map f)[y * g.size.toNat + x]? else none) = _
  rw [Array.getElem?_map]
  split <;> rfl

@[simp] theorem get?_mapCells (g : Grid α) (f : Nat → Nat → α → β) (x y : Nat) :
    (g.mapCells f).get? x y = (g.get? x y).map (f x y) := by
  rw [get?_eq, get?_eq]
  change (if x < g.size.toNat ∧ y < g.size.toNat then
    (g.cells.mapIdx fun i a => f (i % g.size.toNat) (i / g.size.toNat) a)[y * g.size.toNat + x]? else none) = _
  split
  · rename_i hcell
    rw [Array.getElem?_mapIdx, index_mod hcell.1, index_div hcell.1]
  · rfl

theorem get?_eq_none {g : Grid α} {x y : Nat} (h : ¬(x < g.size.toNat ∧ y < g.size.toNat)) :
    g.get? x y = none := by
  rw [get?_eq, if_neg h]

theorem get?_foldl_of_not_mem {f : Grid α → Nat × Nat → Grid α} {x y : Nat}
    (hf : ∀ g p, p ≠ (x, y) → (f g p).get? x y = g.get? x y) (g : Grid α)
    {cells : List (Nat × Nat)} (h : (x, y) ∉ cells) : (cells.foldl f g).get? x y = g.get? x y := by
  induction cells generalizing g with
  | nil => rfl
  | cons p cells ih =>
      rw [List.mem_cons, not_or] at h
      rw [List.foldl_cons, ih (f g p) h.2, hf g p (Ne.symm h.1)]

theorem ext_get? {g h : Grid α} (hsize : g.size = h.size) (hget : ∀ x y, g.get? x y = h.get? x y) :
    g = h := by
  refine Grid.ext hsize (Array.ext_getElem? fun k => ?_)
  by_cases hk : k < g.size.toNat * g.size.toNat
  · have hpos : 0 < g.size.toNat := Nat.pos_of_mul_pos_left (Nat.zero_lt_of_lt hk)
    have hx : k % g.size.toNat < g.size.toNat := Nat.mod_lt k hpos
    have hy : k / g.size.toNat < g.size.toNat := Nat.div_lt_of_lt_mul hk
    have h := hget (k % g.size.toNat) (k / g.size.toNat)
    rw [get?_eq, get?_eq, ← hsize, if_pos ⟨hx, hy⟩, if_pos ⟨hx, hy⟩, Nat.mul_comm, Nat.div_add_mod] at h
    exact h
  · rw [Array.getElem?_eq_none, Array.getElem?_eq_none]
    · rw [h.size_cells, ← hsize]
      exact Nat.le_of_not_lt hk
    · rw [g.size_cells]
      exact Nat.le_of_not_lt hk

/-- Every cell has a property. -/
def All (P : α → Prop) (g : Grid α) : Prop := ∀ ⦃x y a⦄, g.get? x y = some a → P a

variable {P : α → Prop} {Q : β → Prop} {g : Grid α}

theorem all_uniform {a : α} (ha : P a) (size : UInt32) : (uniform size a).All P := by
  intro x y b hb
  rw [get?_eq] at hb
  split at hb
  · rw [uniform, Array.getElem?_replicate] at hb
    split at hb
    · cases hb
      exact ha
    · cases hb
  · cases hb

theorem all_map {f : α → β} (hf : ∀ a, Q (f a)) : (g.map f).All Q := by
  intro x y b hb
  rw [get?_map, Option.map_eq_some_iff] at hb
  obtain ⟨a, -, rfl⟩ := hb
  exact hf a

theorem All.modify {f : α → α} (hg : g.All P) (x y : Nat)
    (hf : ∀ a, g.get? x y = some a → P a → P (f a)) : (g.modify x y f).All P := by
  intro i j b hb
  rw [get?_modify] at hb
  split at hb
  · rename_i hcell
    obtain ⟨a, ha, rfl⟩ := Option.map_eq_some_iff.mp hb
    rw [hcell.1, hcell.2] at ha
    exact hf a ha (hg ha)
  · exact hg hb

theorem All.foldl {f : Grid α → β → Grid α} (hf : ∀ g b, g.All P → (f g b).All P) (hg : g.All P)
    (bs : List β) : (bs.foldl f g).All P := by
  induction bs generalizing g with
  | nil => exact hg
  | cons b bs ih => exact ih (hf g b hg)

end Terrarium.Grid
