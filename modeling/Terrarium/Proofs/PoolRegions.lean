import Mathlib.Data.Finset.Card
import Mathlib.Order.Interval.Finset.Nat
import Terrarium.Ident.Pool

namespace Terrarium

/-- Regions from `low` on that each hold a number, none touching the next. -/
inductive Apart : Nat → List Region → Prop where
  | nil (low : Nat) : Apart low []
  | cons {low : Nat} {r : Region} {rest : List Region} (hlow : low ≤ r.first) (hcount : 0 < r.count)
      (hstop : r.stop ≤ Pool.limit) (hrest : Apart (r.stop + 1) rest) : Apart low (r :: rest)

variable {low n m : Nat} {r : Region} {regions rest : List Region}

theorem Region.first_le_stop (r : Region) : r.first ≤ r.stop := Nat.le_add_right _ _

namespace Pool

theorem not_holds_nil (n : Nat) : ¬ (mk []).Holds n := by
  rintro ⟨r, hr, -⟩
  exact List.not_mem_nil hr

theorem holds_cons : (mk (r :: rest)).Holds n ↔ r.Holds n ∨ (mk rest).Holds n := by
  simp [Holds]

theorem holds_append {front back : List Region} :
    (mk (front ++ back)).Holds n ↔ (mk front).Holds n ∨ (mk back).Holds n := by
  simp [Holds, or_and_right, exists_or]

theorem holds_without (hn : r.Holds n) :
    (mk (r.without n)).Holds m ↔ r.Holds m ∧ m ≠ n := by
  obtain ⟨hfirst, hstop⟩ := hn
  rw [Region.without, holds_append]
  constructor
  · rintro (hm | hm)
    · split at hm
      · simp only [Holds, List.mem_singleton, exists_eq_left, Region.Holds, Region.stop]
          at hm hstop ⊢
        omega
      · exact absurd hm (not_holds_nil m)
    · split at hm
      · simp only [Holds, List.mem_singleton, exists_eq_left, Region.Holds, Region.stop]
          at hm hstop ⊢
        omega
      · exact absurd hm (not_holds_nil m)
  · rintro ⟨⟨hm, hm'⟩, hne⟩
    rcases Nat.lt_or_gt_of_ne hne with hlt | hlt
    · left
      rw [if_pos (by omega)]
      simp only [Holds, List.mem_singleton, exists_eq_left, Region.Holds, Region.stop]
      omega
    · right
      rw [if_pos (by omega)]
      simp only [Holds, List.mem_singleton, exists_eq_left, Region.Holds, Region.stop] at hm' ⊢
      omega

end Pool

namespace Apart

theorem mono {low' : Nat} (h : Apart low regions) (hle : low' ≤ low) : Apart low' regions := by
  cases h with
  | nil => exact .nil low'
  | cons hlow hcount hstop hrest => exact .cons (hle.trans hlow) hcount hstop hrest

theorem le_of_holds (h : Apart low regions) (hn : (Pool.mk regions).Holds n) :
    low ≤ n ∧ n < Pool.limit := by
  induction h with
  | nil low => exact absurd hn (Pool.not_holds_nil n)
  | cons hlow hcount hstop hrest ih =>
      rcases Pool.holds_cons.mp hn with ⟨hfirst, hlt⟩ | hn
      · omega
      · obtain ⟨hle, hlimit⟩ := ih hn
        rw [Region.stop] at hle
        omega

theorem not_holds_rest (h : Apart low (r :: rest)) (hn : n ≤ r.stop) :
    ¬ (Pool.mk rest).Holds n := by
  cases h with
  | cons hlow hcount hstop hrest =>
      intro hrest'
      have hbeyond : r.stop + 1 ≤ n := (hrest.le_of_holds hrest').1
      omega

theorem le_first (h : Apart low regions) : ∀ r ∈ regions, low ≤ r.first := by
  induction h with
  | nil low => exact fun r hr => absurd hr List.not_mem_nil
  | @cons low r rest hlow hcount hstop hrest ih =>
      intro s hs
      rcases List.mem_cons.mp hs with rfl | hs
      · exact hlow
      · have hbeyond : r.stop + 1 ≤ s.first := ih s hs
        rw [Region.stop] at hbeyond
        omega

theorem pairwise (h : Apart low regions) : regions.Pairwise fun r s => r.stop < s.first := by
  induction h with
  | nil low => exact .nil
  | cons hlow hcount hstop hrest ih => exact List.pairwise_cons.mpr ⟨hrest.le_first, ih⟩

theorem count_pos (h : Apart low regions) : ∀ r ∈ regions, 0 < r.count := by
  induction h with
  | nil low => exact fun r hr => absurd hr List.not_mem_nil
  | cons hlow hcount hstop hrest ih => exact List.forall_mem_cons.mpr ⟨hcount, ih⟩

theorem stop_le_limit (h : Apart low regions) : ∀ r ∈ regions, r.stop ≤ Pool.limit := by
  induction h with
  | nil low => exact fun r hr => absurd hr List.not_mem_nil
  | cons hlow hcount hstop hrest ih => exact List.forall_mem_cons.mpr ⟨hstop, ih⟩

theorem exists_split (h : Apart low regions) (n : Nat) :
    ∃ front back, regions = front ++ back ∧ (∀ r ∈ front, r.stop < n) ∧
      ∀ r ∈ back.head?, n ≤ r.stop := by
  induction h with
  | nil low => exact ⟨[], [], rfl, by simp, by simp⟩
  | @cons low r rest hlow hcount hstop hrest ih =>
      by_cases hn : r.stop < n
      · obtain ⟨front, back, rfl, hfront, hback⟩ := ih
        exact ⟨r :: front, back, rfl, List.forall_mem_cons.mpr ⟨hn, hfront⟩, hback⟩
      · refine ⟨[], r :: rest, rfl, by simp, ?_⟩
        rintro s hs
        obtain rfl : r = s := by simpa using hs
        omega

theorem without (h : Apart low (r :: rest)) (hn : r.Holds n) :
    Apart low (r.without n ++ rest) := by
  obtain ⟨hfirst, hlast⟩ := hn
  cases h with
  | cons hlow hcount hstop hrest =>
      have hupper (low' : Nat) (hle : low' ≤ n + 1) :
          Apart low' ((if n + 1 < r.stop then [⟨n + 1, r.stop - (n + 1)⟩] else []) ++ rest) := by
        split
        · refine .cons hle (by simp only; omega) (by simp only [Region.stop] at *; omega) ?_
          exact hrest.mono (by simp only [Region.stop] at *; omega)
        · exact hrest.mono (by omega)
      rw [Region.without, List.append_assoc]
      split
      · refine .cons hlow (by simp only; omega) (by simp only [Region.stop] at *; omega) ?_
        exact hupper _ (by simp only [Region.stop]; omega)
      · exact hupper low (by omega)

end Apart

namespace Pool

theorem isFreeIn_iff (h : Apart low regions) :
    isFreeIn n regions = true ↔ (mk regions).Holds n := by
  induction h with
  | nil low => simp [isFreeIn, not_holds_nil]
  | @cons low r rest hlow hcount hstop hrest ih =>
      rw [isFreeIn, holds_cons]
      split
      · rename_i hbefore
        have hnot : ¬ (mk rest).Holds n :=
          (Apart.cons hlow hcount hstop hrest).not_holds_rest (by rw [Region.stop]; omega)
        simp [Region.Holds, hnot, Nat.not_le.mpr hbefore]
      · split
        · rename_i hfirst hlast
          simp [Region.Holds, hlast, Nat.not_lt.mp hfirst]
        · rename_i hfirst hlast
          simp [Region.Holds, hlast, ih]

theorem takeIn?_eq_none (hn : ¬ (mk regions).Holds n) : takeIn? n regions = none := by
  induction regions with
  | nil => rfl
  | cons r rest ih =>
      rw [holds_cons, not_or] at hn
      rw [takeIn?]
      split
      · rfl
      · split
        · rename_i hfirst hlast
          exact absurd ⟨Nat.not_lt.mp hfirst, hlast⟩ hn.1
        · rw [ih hn.2]
          rfl

theorem exists_takeIn? (h : Apart low regions) (hn : (mk regions).Holds n) :
    ∃ left, takeIn? n regions = some left ∧ Apart low left ∧
      ∀ m, (mk left).Holds m ↔ (mk regions).Holds m ∧ m ≠ n := by
  induction h with
  | nil low => exact absurd hn (not_holds_nil n)
  | @cons low r rest hlow hcount hstop hrest ih =>
      have h := Apart.cons hlow hcount hstop hrest
      rw [takeIn?]
      by_cases hr : r.Holds n
      · refine ⟨r.without n ++ rest, ?_, h.without hr, ?_⟩
        · rw [if_neg (Nat.not_lt.mpr hr.1), if_pos hr.2]
        · intro m
          have hrest' (hm : (mk rest).Holds m) : m ≠ n := by
            rintro rfl
            exact h.not_holds_rest (Nat.le_of_lt hr.2) hm
          rw [holds_append, holds_without hr, holds_cons]
          constructor
          · rintro (⟨hm, hne⟩ | hm)
            · exact ⟨.inl hm, hne⟩
            · exact ⟨.inr hm, hrest' hm⟩
          · rintro ⟨hm | hm, hne⟩
            · exact .inl ⟨hm, hne⟩
            · exact .inr hm
      · have hn' : (mk rest).Holds n := (holds_cons.mp hn).resolve_left hr
        have hpast := (hrest.le_of_holds hn').1
        obtain ⟨left, htake, hleft, hholds⟩ := ih hn'
        have hstop' : r.first ≤ r.stop := r.first_le_stop
        refine ⟨r :: left, ?_, .cons hlow hcount hstop hleft, ?_⟩
        · rw [if_neg (by omega), if_neg (by omega), htake]
          rfl
        · intro m
          have hne (hm : r.Holds m) : m ≠ n := by
            have hlast : m < r.stop := hm.2
            omega
          rw [holds_cons, holds_cons, hholds]
          constructor
          · rintro (hm | ⟨hm, hmn⟩)
            · exact ⟨.inl hm, hne hm⟩
            · exact ⟨.inr hm, hmn⟩
          · rintro ⟨hm | hm, hmn⟩
            · exact .inl hm
            · exact .inr ⟨hm, hmn⟩

theorem exists_takeLeast? (h : Apart low regions) (hne : regions ≠ []) :
    ∃ n left, (mk regions).takeLeast? = some (n, ⟨left⟩) ∧ takeIn? n regions = some left ∧
      (mk regions).Holds n ∧ ∀ m, (mk regions).Holds m → n ≤ m := by
  cases h with
  | nil => exact absurd rfl hne
  | @cons _ r rest hlow hcount hstop hrest =>
      have hfirst : r.Holds r.first := ⟨le_rfl, Nat.lt_add_of_pos_right hcount⟩
      refine ⟨r.first, r.without r.first ++ rest, rfl, ?_, holds_cons.mpr (.inl hfirst), ?_⟩
      · rw [takeIn?, if_neg (lt_irrefl _), if_pos hfirst.2]
      · intro m hm
        exact ((Apart.cons le_rfl hcount hstop hrest).le_of_holds hm).1

theorem takeLeast?_eq_some {p p' : Pool} (h : Apart low p.regions)
    (hleast : p.takeLeast? = some (n, p')) :
    ∃ left, takeIn? n p.regions = some left ∧ p' = ⟨left⟩ ∧ p.Holds n := by
  have hne : p.regions ≠ [] := by
    intro hnil
    simp [takeLeast?, hnil] at hleast
  obtain ⟨m, left, hleast', htake, hm, -⟩ := exists_takeLeast? h hne
  obtain ⟨rfl, rfl⟩ := Prod.mk.inj (Option.some.inj (hleast.symm.trans hleast'))
  exact ⟨left, htake, rfl, hm⟩

theorem apart_joinFront (hlow : low ≤ r.first) (hcount : 0 < r.count) (hstop : r.stop ≤ limit)
    (hrest : Apart r.stop rest) : Apart low (joinFront r rest) := by
  cases hrest with
  | nil => exact .cons hlow hcount hstop (.nil _)
  | @cons _ next rest hlow' hcount' hstop' hrest' =>
      rw [joinFront]
      split
      · rename_i htouch
        have hsame : (Region.mk r.first (r.count + next.count)).stop = next.stop := by
          simp only [Region.stop] at htouch ⊢
          omega
        refine .cons hlow (Nat.add_pos_left hcount _) (hsame ▸ hstop') ?_
        rw [hsame]
        exact hrest'
      · rename_i htouch
        exact .cons hlow hcount hstop (.cons (by omega) hcount' hstop' hrest')

theorem holds_joinFront :
    (mk (joinFront r rest)).Holds m ↔ r.Holds m ∨ (mk rest).Holds m := by
  cases rest with
  | nil => exact holds_cons
  | cons next rest =>
      rw [joinFront]
      split
      · rename_i htouch
        rw [holds_cons, holds_cons, ← or_assoc]
        apply or_congr_left
        simp only [Region.Holds, Region.stop] at htouch ⊢
        omega
      · exact holds_cons

theorem apart_giveIn (h : Apart low regions) (hlow : low ≤ n) (hlimit : n < limit) :
    Apart low (giveIn n regions) := by
  induction h with
  | nil low => exact .cons hlow Nat.one_pos hlimit (.nil _)
  | @cons low r rest hlow' hcount hstop hrest ih =>
      rw [giveIn]
      split
      · rename_i hbefore
        exact apart_joinFront hlow Nat.one_pos hlimit (.cons hbefore hcount hstop hrest)
      · split
        · exact .cons hlow' hcount hstop hrest
        · split
          · rename_i hend
            refine apart_joinFront hlow' (Nat.succ_pos _) ?_ hrest
            rw [Region.stop] at hend ⊢
            simp only
            omega
          · exact .cons hlow' hcount hstop (ih (by omega))

theorem holds_giveIn : (mk (giveIn n regions)).Holds m ↔ m = n ∨ (mk regions).Holds m := by
  have hone : (Region.mk n 1).Holds m ↔ m = n := by
    simp only [Region.Holds, Region.stop]
    omega
  induction regions with
  | nil => rw [giveIn, holds_cons, hone]
  | cons r rest ih =>
      rw [giveIn]
      split
      · rw [holds_joinFront, hone]
      · split
        · rename_i hfirst hlast
          refine ⟨.inr, ?_⟩
          rintro (rfl | hm)
          · exact holds_cons.mpr (.inl ⟨Nat.not_lt.mp hfirst, hlast⟩)
          · exact hm
        · split
          · rename_i hend
            rw [holds_joinFront, holds_cons, ← or_assoc]
            apply or_congr_left
            simp only [Region.Holds, Region.stop] at hend ⊢
            omega
          · rw [holds_cons, holds_cons, or_left_comm]
            exact or_congr_right ih

theorem giveIn_of_holds (h : Apart low regions) (hn : (mk regions).Holds n) :
    giveIn n regions = regions := by
  induction h with
  | nil low => exact absurd hn (not_holds_nil n)
  | @cons low r rest hlow hcount hstop hrest ih =>
      have hstop' : r.first ≤ r.stop := r.first_le_stop
      rw [giveIn]
      rcases holds_cons.mp hn with ⟨hfirst, hlast⟩ | hn
      · rw [if_neg (Nat.not_lt.mpr hfirst), if_pos hlast]
      · have hpast := (hrest.le_of_holds hn).1
        rw [if_neg (by omega), if_neg (by omega), if_neg (by omega), ih hn]

theorem giveIn_append {front back : List Region} (hfront : ∀ r ∈ front, r.stop < n) :
    giveIn n (front ++ back) = front ++ giveIn n back := by
  induction front with
  | nil => rfl
  | cons r front ih =>
      obtain ⟨hr, hfront⟩ := List.forall_mem_cons.mp hfront
      have hfirst : r.first ≤ r.stop := r.first_le_stop
      rw [List.cons_append, giveIn, if_neg (by omega), if_neg (by omega), if_neg (by omega),
        ih hfront]
      rfl

theorem takeIn?_append {front back : List Region} (hfront : ∀ r ∈ front, r.stop < n) :
    takeIn? n (front ++ back) = (takeIn? n back).map (front ++ ·) := by
  induction front with
  | nil => simp
  | cons r front ih =>
      obtain ⟨hr, hfront⟩ := List.forall_mem_cons.mp hfront
      have hfirst : r.first ≤ r.stop := r.first_le_stop
      rw [List.cons_append, takeIn?, if_neg (by omega), if_neg (by omega), ih hfront,
        Option.map_map]
      rfl

theorem isFreeIn_append {front back : List Region} (hfront : ∀ r ∈ front, r.stop < n) :
    isFreeIn n (front ++ back) = isFreeIn n back := by
  induction front with
  | nil => rfl
  | cons r front ih =>
      obtain ⟨hr, hfront⟩ := List.forall_mem_cons.mp hfront
      have hfirst : r.first ≤ r.stop := r.first_le_stop
      rw [List.cons_append, isFreeIn, if_neg (by omega), if_neg (by omega), ih hfront]

theorem giveIn_of_lt (h : ∀ r ∈ regions, n < r.first) :
    giveIn n regions = joinFront ⟨n, 1⟩ regions := by
  cases regions with
  | nil => rfl
  | cons r rest => rw [giveIn, if_pos (h r List.mem_cons_self)]

theorem takeIn?_of_lt (h : ∀ r ∈ regions, n < r.first) : takeIn? n regions = none := by
  cases regions with
  | nil => rfl
  | cons r rest => rw [takeIn?, if_pos (h r List.mem_cons_self)]

theorem isFreeIn_of_lt (h : ∀ r ∈ regions, n < r.first) : isFreeIn n regions = false := by
  cases regions with
  | nil => rfl
  | cons r rest => rw [isFreeIn, if_pos (h r List.mem_cons_self)]

def numbers (regions : List Region) : Finset Nat :=
  regions.foldr (fun r s => Finset.Ico r.first r.stop ∪ s) ∅

theorem mem_numbers : n ∈ numbers regions ↔ (mk regions).Holds n := by
  induction regions with
  | nil => simp [numbers, not_holds_nil]
  | cons r rest ih =>
      rw [holds_cons, ← ih]
      simp [numbers, Region.Holds]

theorem card_numbers (h : Apart low regions) : (numbers regions).card = (mk regions).size := by
  induction h with
  | nil low => rfl
  | @cons low r rest hlow hcount hstop hrest ih =>
      have hdisjoint : Disjoint (Finset.Ico r.first r.stop) (numbers rest) := by
        rw [Finset.disjoint_left]
        intro n hn hn'
        have h := Apart.cons hlow hcount hstop hrest
        exact h.not_holds_rest (Finset.mem_Ico.mp hn).2.le (mem_numbers.mp hn')
      calc (numbers (r :: rest)).card
          = (Finset.Ico r.first r.stop ∪ numbers rest).card := rfl
        _ = (Finset.Ico r.first r.stop).card + (numbers rest).card :=
            Finset.card_union_of_disjoint hdisjoint
        _ = r.count + (mk rest).size := by
            rw [ih, Nat.card_Ico, Region.stop, Nat.add_sub_cancel_left]

end Pool

theorem Apart.size_le (h : Apart low regions) : (Pool.mk regions).size ≤ Pool.limit - low := by
  rw [← Pool.card_numbers h, ← Nat.card_Ico]
  apply Finset.card_le_card
  intro n hn
  exact Finset.mem_Ico.mpr (h.le_of_holds (Pool.mem_numbers.mp hn))

end Terrarium
