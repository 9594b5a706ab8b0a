import Mathlib.Order.BooleanAlgebra.Set
import Terrarium.Proofs.GridCells
import Terrarium.Proofs.GridSize

namespace Terrarium.Grid

variable {α β : Type} {size : UInt32} {area area' reads reads' writes writes' : Set (Nat × Nat)}
  {f k : Grid α → Grid α} {g h : Grid α}

/-- Grids of one size with the same cells in an area. -/
structure Agree (area : Set (Nat × Nat)) (g h : Grid α) : Prop where
  size_eq : g.size = h.size
  get?_eq : ∀ x y, (x, y) ∈ area → g.get? x y = h.get? x y

namespace Agree

theorem refl (area : Set (Nat × Nat)) (g : Grid α) : Agree area g g := ⟨rfl, fun _ _ _ => rfl⟩

theorem symm (hgh : Agree area g h) : Agree area h g :=
  ⟨hgh.size_eq.symm, fun x y hp => (hgh.get?_eq x y hp).symm⟩

theorem trans {l : Grid α} (hgh : Agree area g h) (hhl : Agree area h l) : Agree area g l :=
  ⟨hgh.size_eq.trans hhl.size_eq, fun x y hp => (hgh.get?_eq x y hp).trans (hhl.get?_eq x y hp)⟩

theorem mono (hgh : Agree area g h) (hsub : area' ⊆ area) : Agree area' g h :=
  ⟨hgh.size_eq, fun x y hp => hgh.get?_eq x y (hsub hp)⟩

theorem modify (hgh : Agree area g h) (x y : Nat) (change : α → α) :
    Agree area (g.modify x y change) (h.modify x y change) := by
  refine ⟨by rw [size_modify, size_modify, hgh.size_eq], fun i j hp => ?_⟩
  rw [get?_modify, get?_modify, hgh.get?_eq i j hp]

end Agree

/-- A change of grids of one size that writes no cells but those of one area, and that makes grids
which agree where it reads agree there again. What is written counts as read. -/
structure Local (size : UInt32) (reads writes : Set (Nat × Nat)) (f : Grid α → Grid α) :
    Prop where
  subset : writes ⊆ reads
  outside : ∀ g, g.size = size → Agree writesᶜ (f g) g
  inside : ∀ g h, g.size = size → Agree reads g h → Agree reads (f g) (f h)

namespace Local

theorem id (hsub : writes ⊆ reads) : Local size reads writes fun g : Grid α => g :=
  ⟨hsub, fun g _ => .refl _ g, fun _ _ _ hgh => hgh⟩

theorem comp (hf : Local size reads writes f) (hk : Local size reads writes k) :
    Local size reads writes fun g => k (f g) := by
  have hsize (g : Grid α) (hg : g.size = size) : (f g).size = size :=
    (hf.outside g hg).size_eq.trans hg
  refine ⟨hf.subset, fun g hg => ?_, fun g h hg hgh => ?_⟩
  · exact (hk.outside (f g) (hsize g hg)).trans (hf.outside g hg)
  · exact hk.inside (f g) (f h) (hsize g hg) (hf.inside g h hg hgh)

theorem foldl {step : Grid α → β → Grid α} {bs : List β} (hsub : writes ⊆ reads)
    (hstep : ∀ b ∈ bs, Local size reads writes fun g => step g b) :
    Local size reads writes fun g => bs.foldl step g := by
  induction bs with
  | nil => exact .id hsub
  | cons b bs ih =>
      obtain ⟨hfirst, hrest⟩ := List.forall_mem_cons.mp hstep
      exact hfirst.comp (ih hrest)

theorem modify {x y : Nat} (hsub : writes ⊆ reads) (hp : (x, y) ∈ writes) (change : α → α) :
    Local size reads writes fun g => g.modify x y change := by
  refine ⟨hsub, fun g _ => ⟨g.size_modify x y change, fun i j hout => ?_⟩, fun g h _ hgh =>
    hgh.modify x y change⟩
  rw [get?_modify, if_neg]
  rintro ⟨rfl, rfl⟩
  exact hout hp

/-- Where one change writes, another one that writes nothing of what it reads makes no difference,
before or after it. -/
theorem undisturbed (hf : Local size reads writes f) (hk : Local size reads' writes' k)
    (hclear : ∀ p ∈ writes', p ∉ reads) (hg : g.size = size) :
    Agree writes (f (k g)) (k (f g)) := by
  have hsize : (f g).size = size := (hf.outside g hg).size_eq.trans hg
  have hkept : reads ⊆ writes'ᶜ := fun p hread hwritten => hclear p hwritten hread
  have hbefore : Agree reads (f (k g)) (f g) :=
    (hf.inside g (k g) hg ((hk.outside g hg).mono hkept).symm).symm
  have hafter : Agree reads (k (f g)) (f g) := (hk.outside (f g) hsize).mono hkept
  exact (hbefore.trans hafter.symm).mono hf.subset

theorem commute (hf : Local size reads writes f) (hk : Local size reads' writes' k)
    (hclear : ∀ p ∈ writes, p ∉ reads') (hclear' : ∀ p ∈ writes', p ∉ reads)
    (hg : g.size = size) : f (k g) = k (f g) := by
  have hhere := hf.undisturbed hk hclear' hg
  have hthere := hk.undisturbed hf hclear hg
  have hsizef : (f g).size = size := (hf.outside g hg).size_eq.trans hg
  have hsizek : (k g).size = size := (hk.outside g hg).size_eq.trans hg
  -- A cell is written by the one change, by the other one or by neither.
  refine ext_get? hhere.size_eq fun x y => ?_
  by_cases hp : (x, y) ∈ writes
  · exact hhere.get?_eq x y hp
  · by_cases hp' : (x, y) ∈ writes'
    · exact (hthere.get?_eq x y hp').symm
    · calc (f (k g)).get? x y = (k g).get? x y := (hf.outside (k g) hsizek).get?_eq x y hp
        _ = g.get? x y := (hk.outside g hg).get?_eq x y hp'
        _ = (f g).get? x y := ((hf.outside g hg).get?_eq x y hp).symm
        _ = (k (f g)).get? x y := ((hk.outside (f g) hsizef).get?_eq x y hp').symm

end Local

end Terrarium.Grid
