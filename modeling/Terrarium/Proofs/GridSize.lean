import Terrarium.World

namespace Terrarium

namespace Grid

variable {α β : Type}

@[simp] theorem size_modify (g : Grid α) (x y : Nat) (f : α → α) :
    (g.modify x y f).size = g.size := by
  rw [modify]
  split <;> rfl

@[simp] theorem size_map (g : Grid α) (f : α → β) : (g.map f).size = g.size := rfl

theorem size_foldl {f : Grid α → β → Grid α} (hf : ∀ g b, (f g b).size = g.size)
    (g : Grid α) (bs : List β) : (bs.foldl f g).size = g.size := by
  induction bs generalizing g with
  | nil => rfl
  | cons b bs ih => rw [List.foldl_cons, ih, hf]

end Grid

theorem Brush.size_paint {α : Type} (b : Brush) (r : Rect)
    {rule : Grid α → Nat → Nat → Float32 → Grid α}
    (hrule : ∀ g x y d, (rule g x y d).size = g.size) (g : Grid α) :
    (b.paint r rule g).size = g.size := by
  apply Grid.size_foldl
  intro g p
  cases b.weight? p.1 p.2 with
  | none => rfl
  | some d => exact hrule g p.1 p.2 d

namespace Fluid

theorem size_pourCell (r : Reach) (state : Grid Cell × Float32) (p : Nat × Nat) :
    (pourCell r state p).1.size = state.1.size := by
  rw [pourCell]
  split
  · rfl
  · split
    · rfl
    · dsimp only
      split
      · rfl
      · exact state.1.size_modify p.1 p.2 _

theorem size_pour (g : Grid Cell) (r : Reach) : (pour g r).size = g.size := by
  suffices h : ∀ (cells : List (Nat × Nat)) (state : Grid Cell × Float32),
      (cells.foldl (pourCell r) state).1.size = state.1.size from h r.rect.cells (g, r.capacity)
  intro cells
  induction cells with
  | nil => exact fun _ => rfl
  | cons p cells ih =>
      intro state
      rw [List.foldl_cons, ih, size_pourCell]

@[simp] theorem size_step (g : Grid Cell) (job : Job) : (step g job).size = g.size :=
  Grid.size_foldl size_pour g job.reaches

end Fluid

namespace Basin

@[simp] theorem size_wait (b : Basin) : b.wait.size = b.size :=
  Grid.size_foldl Fluid.size_step b.back b.waiting

theorem size_write (b : Basin) {f : Grid Cell → Grid Cell} (hf : ∀ g, (f g).size = g.size) :
    (b.write f).size = b.size :=
  (hf b.wait.back).trans b.size_wait

@[simp] theorem size_reset (b : Basin) : b.reset.size = b.size :=
  b.size_write fun _ => rfl

@[simp] theorem size_groundUpdated (b : Basin) (r : Rect) (m : HeightMap) :
    (b.groundUpdated r m).size = b.size := by
  rw [groundUpdated]
  split
  · rfl
  · apply size_write
    intro g
    apply Grid.size_foldl
    intro g p
    cases m.heightAt p.1 p.2 with
    | none => rfl
    | some h => exact g.size_modify p.1 p.2 _

end Basin

end Terrarium
