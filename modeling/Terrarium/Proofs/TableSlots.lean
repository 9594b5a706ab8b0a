import Mathlib.Data.List.Pairwise
import Terrarium.Proofs.TableLookup

namespace Terrarium.Table

variable {α : Type} {slots : List (ObjectId × α)} {id i : ObjectId} {a : α}

/-- Slots by descending identifier. -/
def Descending (slots : List (ObjectId × α)) : Prop :=
  slots.Pairwise fun before after => after.1.word < before.1.word

namespace Descending

theorem ne {slot after : ObjectId × α} (h : Descending (slot :: slots)) (hafter : after ∈ slots) :
    after.1 ≠ slot.1 := by
  intro heq
  have hlt := List.rel_of_pairwise_cons h hafter
  rw [heq] at hlt
  exact UInt64.lt_irrefl _ hlt

end Descending

theorem lookup_eq_some_iff (h : Descending slots) : lookup id slots = some a ↔ (id, a) ∈ slots := by
  induction slots with
  | nil => simp [lookup]
  | cons slot rest ih =>
      obtain ⟨k, b⟩ := slot
      rw [lookup]
      split
      · rename_i hbefore
        -- Every slot is for an identifier below the one looked up.
        have hpast : (id, a) ∉ (k, b) :: rest := by
          intro hmem
          rcases List.mem_cons.mp hmem with heq | hmem
          · obtain ⟨rfl, -⟩ := Prod.mk.inj heq
            exact UInt64.lt_irrefl _ hbefore
          · exact UInt64.lt_asymm hbefore (List.rel_of_pairwise_cons h hmem)
        exact iff_of_false (by simp) hpast
      · split
        · rename_i hk
          subst hk
          have hrest : (k, a) ∉ rest := fun hmem => h.ne hmem rfl
          simp [hrest, eq_comm]
        · rename_i hk
          rw [ih h.of_cons, List.mem_cons]
          simp [Ne.symm hk]

theorem mem_insertSlot {slot : ObjectId × α} (hmem : slot ∈ insertSlot id a slots) :
    slot = (id, a) ∨ slot ∈ slots := by
  induction slots with
  | nil => exact .inl (List.mem_singleton.mp hmem)
  | cons front rest ih =>
      obtain ⟨k, b⟩ := front
      rw [insertSlot] at hmem
      split at hmem
      · exact List.mem_cons.mp hmem
      · split at hmem
        · exact (List.mem_cons.mp hmem).imp_right (List.mem_cons_of_mem _)
        · rcases List.mem_cons.mp hmem with rfl | hmem
          · exact .inr List.mem_cons_self
          · exact (ih hmem).imp_right (List.mem_cons_of_mem _)

theorem Descending.insertSlot (h : Descending slots) (id : ObjectId) (a : α) :
    Descending (insertSlot id a slots) := by
  induction slots with
  | nil => exact List.pairwise_singleton _ _
  | cons slot rest ih =>
      obtain ⟨k, b⟩ := slot
      rw [Table.insertSlot]
      split
      · rename_i hbefore
        refine List.pairwise_cons.mpr ⟨?_, h⟩
        intro after hafter
        rcases List.mem_cons.mp hafter with rfl | hafter
        · exact hbefore
        · exact UInt64.lt_trans (List.rel_of_pairwise_cons h hafter) hbefore
      · split
        · rename_i hk
          subst hk
          exact List.pairwise_cons.mpr ⟨fun _ => List.rel_of_pairwise_cons h, h.of_cons⟩
        · rename_i hbefore hk
          refine List.pairwise_cons.mpr ⟨?_, ih h.of_cons⟩
          intro after hafter
          rcases mem_insertSlot hafter with rfl | hafter
          · have hne : id.word ≠ k.word := fun heq => hk (congrArg ObjectId.mk heq.symm)
            exact UInt64.lt_of_le_of_ne (UInt64.not_lt.mp hbefore) hne
          · exact List.rel_of_pairwise_cons h hafter

theorem mem_eraseSlot (h : Descending slots) {slot : ObjectId × α} :
    slot ∈ eraseSlot id slots ↔ slot ∈ slots ∧ slot.1 ≠ id := by
  induction slots with
  | nil => simp [eraseSlot]
  | cons front rest ih =>
      obtain ⟨k, b⟩ := front
      rw [eraseSlot]
      split
      · rename_i hk
        subst hk
        constructor
        · intro hmem
          exact ⟨List.mem_cons_of_mem _ hmem, h.ne hmem⟩
        · rintro ⟨hmem, hne⟩
          refine (List.mem_cons.mp hmem).resolve_left ?_
          rintro rfl
          exact hne rfl
      · rename_i hk
        rw [List.mem_cons, ih h.of_cons, List.mem_cons]
        constructor
        · rintro (rfl | ⟨hmem, hne⟩)
          · exact ⟨.inl rfl, hk⟩
          · exact ⟨.inr hmem, hne⟩
        · rintro ⟨rfl | hmem, hne⟩
          · exact .inl rfl
          · exact .inr ⟨hmem, hne⟩

theorem eraseSlot_sublist (id : ObjectId) (slots : List (ObjectId × α)) :
    (eraseSlot id slots).Sublist slots := by
  induction slots with
  | nil => exact .slnil
  | cons slot rest ih =>
      rw [eraseSlot]
      split
      · exact List.sublist_cons_self _ _
      · exact ih.cons_cons _

theorem Descending.eraseSlot (h : Descending slots) (id : ObjectId) :
    Descending (eraseSlot id slots) :=
  h.sublist (eraseSlot_sublist id slots)

theorem lookup_eraseSlot (h : Descending slots) :
    lookup i (eraseSlot id slots) = if i = id then none else lookup i slots := by
  apply Option.ext
  intro a
  rw [lookup_eq_some_iff (h.eraseSlot id), mem_eraseSlot h]
  split
  · rename_i hi
    simp [hi]
  · rename_i hi
    rw [lookup_eq_some_iff h]
    exact and_iff_left hi

theorem length_insertSlot (id : ObjectId) (a : α) (slots : List (ObjectId × α)) :
    (insertSlot id a slots).length =
      if (lookup id slots).isSome then slots.length else slots.length + 1 := by
  induction slots with
  | nil => rfl
  | cons slot rest ih =>
      obtain ⟨k, b⟩ := slot
      rw [insertSlot, lookup]
      split
      · rfl
      · split
        · rfl
        · rw [List.length_cons, ih, List.length_cons]
          split <;> rfl

theorem length_eraseSlot (hid : (lookup id slots).isSome) :
    (eraseSlot id slots).length = slots.length - 1 := by
  induction slots with
  | nil => rfl
  | cons slot rest ih =>
      obtain ⟨k, b⟩ := slot
      rw [lookup] at hid
      split at hid
      · simp at hid
      · rw [eraseSlot]
        split at hid
        · rename_i hk
          rw [if_pos hk]
          rfl
        · rename_i hk
          have hrest : rest ≠ [] := by
            rintro rfl
            simp [lookup] at hid
          have hpos : 0 < rest.length := List.length_pos_iff.mpr hrest
          rw [if_neg hk, List.length_cons, ih hid, List.length_cons]
          omega

end Terrarium.Table
