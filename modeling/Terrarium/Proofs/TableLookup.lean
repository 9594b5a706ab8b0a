import Terrarium.Ident.Table

namespace Terrarium.Table

variable {α β : Type}

theorem lookup_insertSlot (i id : ObjectId) (a : α) (slots : List (ObjectId × α)) :
    lookup i (insertSlot id a slots) = if i = id then some a else lookup i slots := by
  induction slots with
  | nil => grind [insertSlot, lookup]
  | cons slot rest ih =>
      obtain ⟨k, b⟩ := slot
      rw [insertSlot]
      split
      · rename_i hbefore
        by_cases hi : i = id
        · simp [lookup, hi]
        · -- The new slot stands in front, so `i` is past it only where it is past the next one.
          have hpast : id.word < i.word → k.word < i.word := fun h => UInt64.lt_trans hbefore h
          rw [lookup, if_neg hi, if_neg (Ne.symm hi)]
          split
          · rename_i hlast
            rw [lookup, if_pos (hpast hlast)]
          · rfl
      · split
        · rename_i hk
          subst hk
          by_cases hi : i = k
          · simp [lookup, hi]
          · simp [lookup, hi, Ne.symm hi]
        · rename_i hbefore hk
          rw [lookup, ih, lookup]
          by_cases hi : i = id
          · subst hi
            simp [hbefore, hk]
          · simp [hi]

theorem lookup_eraseSlot_of_ne {i id : ObjectId} {a : α} {slots : List (ObjectId × α)}
    (hlookup : lookup i slots = some a) (hne : i ≠ id) :
    lookup i (eraseSlot id slots) = some a := by
  induction slots with
  | nil => simp [lookup] at hlookup
  | cons slot rest ih =>
      obtain ⟨k, b⟩ := slot
      rw [lookup] at hlookup
      split at hlookup
      · simp at hlookup
      · rename_i hbefore
        rw [eraseSlot]
        split
        · rename_i hk
          rwa [if_neg (fun h => hne (h.symm.trans hk))] at hlookup
        · rw [lookup, if_neg hbefore]
          split at hlookup
          · rename_i hi
            rw [if_pos hi, hlookup]
          · rename_i hi
            rw [if_neg hi, ih hlookup]

theorem get?_put (t : Table α) (id i : ObjectId) (a : α) :
    (t.put id a).get? i = if i = id then some a else t.get? i :=
  lookup_insertSlot i id a t.slots

theorem get?_update (t : Table α) (id i : ObjectId) (f : α → α) :
    (t.update id f).get? i = if i = id then (t.get? id).map f else t.get? i := by
  rw [update]
  split
  · rename_i hnone
    split
    · rename_i hi
      rw [hi, hnone]
      rfl
    · rfl
  · rename_i a hsome
    rw [hsome]
    exact lookup_insertSlot i id (f a) t.slots

theorem get?_kill_of_ne {t : Table α} {id i : ObjectId} {a : α} (hget : t.get? i = some a)
    (hne : i ≠ id) : (t.kill id).2.get? i = some a := by
  rw [kill]
  split
  · exact lookup_eraseSlot_of_ne hget hne
  · exact hget

theorem get?_createAt {t t' : Table α} {id made : ObjectId} {make : ObjectId → α}
    (hmade : t.createAt id make = .ok (made, t')) (i : ObjectId) :
    t'.get? i = if i = made then some (make made) else t.get? i := by
  rw [createAt] at hmade
  split at hmade
  · rw [create, takeId?] at hmade
    cases htake : t.pool.takeLeast? with
    | none => simp [htake] at hmade
    | some taken =>
        simp only [htake, Option.map_some, Except.ok.injEq, Prod.mk.injEq] at hmade
        obtain ⟨hid, rfl⟩ := hmade
        rw [← hid]
        exact get?_put { t with pool := taken.2 } _ i _
  · cases htake : t.pool.take? id.word.toNat with
    | none => simp [htake] at hmade
    | some pool =>
        simp only [htake, Except.ok.injEq, Prod.mk.injEq] at hmade
        obtain ⟨rfl, rfl⟩ := hmade
        exact get?_put { t with pool } id i _

theorem getAs?_createAt_isSome {t t' : Table α} {id made : ObjectId} {make : ObjectId → α}
    {kind : α → Option β} (hmade : t.createAt id make = .ok (made, t'))
    (hkind : (kind (make made)).isSome) {i : ObjectId}
    (hi : i = made ∨ (t.getAs? kind i).isSome) : (t'.getAs? kind i).isSome := by
  rw [getAs?, get?_createAt hmade i]
  split
  · exact hkind
  · rename_i hne
    exact hi.resolve_left hne

end Terrarium.Table
