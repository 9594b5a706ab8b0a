import Terrarium.Proofs.IdPartition

namespace Terrarium

theorem Pool.takeIn?_eq_some {low n : Nat} {regions left : List Region} (h : Apart low regions)
    (htake : takeIn? n regions = some left) :
    (mk regions).Holds n ∧ Apart low left ∧
      ∀ m, (mk left).Holds m ↔ (mk regions).Holds m ∧ m ≠ n := by
  by_cases hn : (mk regions).Holds n
  · obtain ⟨left', htake', hleft⟩ := exists_takeIn? h hn
    obtain rfl : left = left' := Option.some.inj (htake.symm.trans htake')
    exact ⟨hn, hleft⟩
  · rw [takeIn?_eq_none hn] at htake
    contradiction

theorem Pool.holds_give {p : Pool} {n m : Nat} :
    (p.give n).Holds m ↔ (m = n ∧ InRange n) ∨ p.Holds m := by
  rw [give]
  split
  · rename_i hguard
    rw [or_iff_right]
    rintro ⟨-, hfirst, hlast⟩
    omega
  · rename_i hguard
    have hrange : InRange n := ⟨by omega, by omega⟩
    rw [holds_giveIn]
    exact or_congr_left (and_iff_left hrange).symm

namespace Table

variable {α : Type} {t t' : Table α} {id made : ObjectId} {c : Call α}

theorem takeId?_eq_some (h : Apart 1 t.pool.regions) (htake : t.takeId? = some (id, t')) :
    ∃ left, Pool.takeIn? id.word.toNat t.pool.regions = some left ∧
      t' = { t with pool := ⟨left⟩ } := by
  obtain ⟨⟨n, pool⟩, hleast, heq⟩ := Option.map_eq_some_iff.mp htake
  obtain ⟨rfl, rfl⟩ := Prod.mk.inj heq
  obtain ⟨left, hleft, rfl, hn⟩ := Pool.takeLeast?_eq_some h hleast
  refine ⟨left, ?_, rfl⟩
  rwa [UInt64.toNat_ofNat_of_lt' (Word.lt_size (h.le_of_holds hn).2)]

theorem inRange_word (hfirst : 1 ≤ id.word) (hlast : id.word < Word.largest) :
    Pool.InRange id.word.toNat :=
  ⟨UInt64.le_iff_toNat_le.mp hfirst, UInt64.lt_iff_toNat_lt.mp hlast⟩

theorem word_pos (hid : ¬ id.isNull) : 0 < id.word.toNat := by
  have hne : id.word.toNat ≠ ObjectId.null.word.toNat :=
    toNat_word_ne fun hnull => hid (decide_eq_true hnull)
  exact Nat.pos_of_ne_zero hne

theorem not_isNull_of_inRange (hid : Pool.InRange id.word.toNat) : ¬ id.isNull := by
  intro hnull
  obtain rfl : id = .null := of_decide_eq_true hnull
  exact absurd hid.1 (by decide)

/-- What holds of a table whatever is asked of it. -/
structure Tidy (t : Table α) : Prop where
  apart : Apart 1 t.pool.regions
  descending : Descending t.slots
  counted : t.live = t.slots.length
  null : t.get? .null = none

namespace Tidy

theorem empty : (Table.empty : Table α).Tidy := ⟨apart_all, .nil, rfl, rfl⟩

theorem withPool (h : t.Tidy) {p : Pool} (hp : Apart 1 p.regions) : { t with pool := p }.Tidy :=
  ⟨hp, h.descending, h.counted, h.null⟩

theorem put (h : t.Tidy) (hid : ¬ id.isNull) (a : α) : (t.put id a).Tidy := by
  refine ⟨h.apart, h.descending.insertSlot id a, ?_, ?_⟩
  · change (if (t.get? id).isSome then t.live else t.live + 1) = (insertSlot id a t.slots).length
    rw [length_insertSlot, h.counted]
    rfl
  · have hne : ObjectId.null ≠ id := by
      rintro rfl
      exact hid rfl
    rw [get?_put, if_neg hne]
    exact h.null

theorem update (h : t.Tidy) (id : ObjectId) (f : α → α) : (t.update id f).Tidy := by
  have hnull : (t.update id f).get? .null = none := by
    rw [get?_update]
    split
    · rename_i hid
      rw [← hid, h.null]
      rfl
    · exact h.null
  rw [Table.update] at hnull ⊢
  split at hnull
  · exact h
  · rename_i a hlive
    refine ⟨h.apart, h.descending.insertSlot id (f a), ?_, hnull⟩
    have hsome : (lookup id t.slots).isSome := Option.isSome_of_eq_some hlive
    change t.live = (insertSlot id (f a) t.slots).length
    rw [length_insertSlot, if_pos hsome, h.counted]

theorem not_isNull (h : t.Tidy) (hlive : (t.get? id).isSome) : ¬ id.isNull := by
  intro hnull
  obtain rfl : id = .null := of_decide_eq_true hnull
  simp [h.null] at hlive

theorem live_pos (h : t.Tidy) (hlive : (t.get? id).isSome) : 0 < t.live := by
  obtain ⟨a, ha⟩ := Option.isSome_iff_exists.mp hlive
  rw [h.counted]
  exact List.length_pos_of_mem ((lookup_eq_some_iff h.descending).mp ha)

theorem live_le (h : t.Tidy) : t.live ≤ Pool.limit := by
  have hwords : t.words.toFinset ⊆ Finset.Ioc 0 Pool.limit := by
    intro n hn
    obtain ⟨slot, hslot, rfl⟩ := List.mem_map.mp (List.mem_toFinset.mp hn)
    have hget : t.get? slot.1 = some slot.2 := (lookup_eq_some_iff h.descending).mpr hslot
    have hpos := word_pos (h.not_isNull (Option.isSome_of_eq_some hget))
    exact Finset.mem_Ioc.mpr ⟨hpos, Word.toNat_le_limit _⟩
  calc t.live = t.words.toFinset.card := (card_words h.descending h.counted).symm
    _ ≤ (Finset.Ioc 0 Pool.limit).card := Finset.card_le_card hwords
    _ = Pool.limit := by rw [Nat.card_Ioc, Nat.sub_zero]

theorem give (h : t.Tidy) (id : ObjectId) : Apart 1 (t.giveId id).pool.regions :=
  Pool.apart_serve? h.apart (q := .back id) rfl

theorem kill (h : t.Tidy) (id : ObjectId) : (t.kill id).2.Tidy := by
  rw [Table.kill]
  split
  · rename_i hlive
    refine ⟨h.give id, h.descending.eraseSlot id, ?_, ?_⟩
    · change t.live - 1 = (eraseSlot id t.slots).length
      rw [length_eraseSlot hlive, h.counted]
    · change lookup .null (eraseSlot id t.slots) = none
      rw [lookup_eraseSlot h.descending]
      split
      · rfl
      · exact h.null
  · exact h

end Tidy

theorem Tidy.exists_made (h : t.Tidy) {make : ObjectId → α}
    (hmade : t.createAt id make = .ok (made, t')) :
    ∃ left, t' = { t with pool := ⟨left⟩ }.put made (make made) ∧
      t.pool.Holds made.word.toNat ∧ Apart 1 left ∧
      ∀ m, (Pool.mk left).Holds m ↔ t.pool.Holds m ∧ m ≠ made.word.toNat := by
  obtain ⟨left, htake, rfl⟩ := exists_taken h.apart hmade
  exact ⟨left, rfl, Pool.takeIn?_eq_some h.apart htake⟩

theorem Tidy.made_not_isNull (h : t.Tidy) {make : ObjectId → α}
    (hmade : t.createAt id make = .ok (made, t')) : ¬ made.isNull := by
  obtain ⟨left, -, hfree, -⟩ := h.exists_made hmade
  exact not_isNull_of_inRange (h.apart.le_of_holds hfree)

theorem Tidy.createAt (h : t.Tidy) {make : ObjectId → α}
    (hmade : t.createAt id make = .ok (made, t')) : t'.Tidy := by
  have hid := h.made_not_isNull hmade
  obtain ⟨left, rfl, -, hleft, -⟩ := h.exists_made hmade
  exact (h.withPool hleft).put hid _

theorem ne_exhausted {make : ObjectId → α} {e : StoreError} (hid : id.isNull → t.pool.regions ≠ [])
    (hmade : t.createAt id make = .error e) : e ≠ .exhausted := by
  rintro rfl
  by_cases hnull : id.isNull
  · rw [createAt_null t hnull, create] at hmade
    split at hmade
    · rename_i htake
      apply hid hnull
      rw [takeId?, Option.map_eq_none_iff, Pool.takeLeast?] at htake
      split at htake
      · assumption
      · contradiction
    · contradiction
  · rw [createAt_eq t hnull] at hmade
    split at hmade <;> simp at hmade

/-- What a call that goes through does. Making an object without a choice of its identifier is
making one under the null identifier. -/
inductive Effect [Identified α] (t : Table α) : Call α → Table α → Prop where
  | taken {id : ObjectId} {t' : Table α} (htake : t.takeId? = some (id, t')) : Effect t .takeId t'
  | given (id : ObjectId) : Effect t (.giveId id) (t.giveId id)
  | created {c : Call α} {id made : ObjectId} {make : ObjectId → α} {t' : Table α}
      (hc : c = .create make ∧ id = .null ∨ c = .createAt id make)
      (hmade : t.createAt id make = .ok (made, t')) : Effect t c t'
  | refused {id : ObjectId} {make : ObjectId → α} {e : StoreError}
      (hmade : t.createAt id make = .error e) (he : e ≠ .exhausted) :
      Effect t (.createAt id make) t
  | stored {a : α} (hid : ¬ (Identified.ident a).isNull) :
      Effect t (.store a) (t.put (Identified.ident a) a)
  | unstored {a : α} (hid : (Identified.ident a).isNull) : Effect t (.store a) t
  | updated (id : ObjectId) (f : α → α) : Effect t (.update id f) (t.update id f)
  | killed (id : ObjectId) : Effect t (.kill id) (t.kill id).2

variable [Identified α]

theorem store_null {a : α} (hid : (Identified.ident a).isNull) : t.store a = .error .nullId :=
  if_pos hid

theorem store_eq {a : α} (hid : ¬ (Identified.ident a).isNull) :
    t.store a = .ok (t.put (Identified.ident a) a) := if_neg hid

theorem effect_of_call? (hcall : t.call? c = some t') : t.Effect c t' := by
  cases c with
  | takeId =>
      obtain ⟨⟨id, next⟩, htake, rfl⟩ := Option.map_eq_some_iff.mp hcall
      exact .taken htake
  | giveId id =>
      obtain rfl := Option.some.inj hcall
      exact .given id
  | create make =>
      rw [call?, ← createAt_null t (rfl : ObjectId.null.isNull = true)] at hcall
      split at hcall
      · rename_i made next hmade
        obtain rfl := Option.some.inj hcall
        exact .created (.inl ⟨rfl, rfl⟩) hmade
      · contradiction
  | createAt id make =>
      rw [call?] at hcall
      split at hcall
      · rename_i made next hmade
        obtain rfl := Option.some.inj hcall
        exact .created (.inr rfl) hmade
      · contradiction
      · rename_i e he hmade
        obtain rfl := Option.some.inj hcall
        exact .refused hmade he
  | store a =>
      rw [call?] at hcall
      by_cases hid : (Identified.ident a).isNull
      · rw [store_null hid] at hcall
        obtain rfl := Option.some.inj hcall
        exact .unstored hid
      · rw [store_eq hid] at hcall
        obtain rfl := Option.some.inj hcall
        exact .stored hid
  | update id f =>
      obtain rfl := Option.some.inj hcall
      exact .updated id f
  | kill id =>
      obtain rfl := Option.some.inj hcall
      exact .killed id

theorem Tidy.effect (h : t.Tidy) (heffect : t.Effect c t') : t'.Tidy := by
  cases heffect with
  | taken htake =>
      obtain ⟨left, hleft, rfl⟩ := takeId?_eq_some h.apart htake
      exact h.withPool (Pool.takeIn?_eq_some h.apart hleft).2.1
  | given id => exact h.withPool (h.give id)
  | created hc hmade => exact h.createAt hmade
  | refused hmade he => exact h
  | stored hid => exact h.put hid _
  | unstored hid => exact h
  | updated id f => exact h.update id f
  | killed id => exact h.kill id

theorem Tidy.call? (h : t.Tidy) (hcall : t.call? c = some t') : t'.Tidy :=
  h.effect (effect_of_call? hcall)

/-- A property that calls keep is kept by all of them in turn. -/
theorem callAll?_keeps {P : Table α → Prop} {calls : List (Call α)}
    (hkeeps : ∀ c ∈ calls, ∀ t t', t.call? c = some t' → P t → P t') (ht : P t)
    (hcalls : t.callAll? calls = some t') : P t' := by
  induction calls generalizing t with
  | nil =>
      obtain rfl : t = t' := Option.some.inj hcalls
      exact ht
  | cons c calls ih =>
      obtain ⟨next, hnext, hrest⟩ := Option.bind_eq_some_iff.mp hcalls
      obtain ⟨hfirst, hothers⟩ := List.forall_mem_cons.mp hkeeps
      exact ih hothers (hfirst t next hnext ht) hrest

theorem callAll?_concat (t : Table α) (calls : List (Call α)) (c : Call α) :
    t.callAll? (calls ++ [c]) = (t.callAll? calls).bind (·.call? c) := by
  rw [callAll?, List.foldlM_append]
  simp [callAll?]

theorem tidy_callAll? {calls : List (Call α)} (h : (empty : Table α).callAll? calls = some t) :
    t.Tidy :=
  callAll?_keeps (fun _ _ _ _ hcall ht => ht.call? hcall) .empty h

end Table

end Terrarium
