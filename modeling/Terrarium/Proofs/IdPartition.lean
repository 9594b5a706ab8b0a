import Mathlib.Logic.Basic
import Terrarium.Proofs.TableCalls
import Terrarium.Proofs.TableSlots
import Terrarium.Proofs.WorldMoves

namespace Terrarium

/-- Numbers that can be handed out. -/
def Pool.InRange (n : Nat) : Prop := 1 ≤ n ∧ n < Pool.limit

namespace Table

variable {α : Type}

/-- The words of the identifiers that objects are stored under. -/
def words (t : Table α) : List Nat := t.slots.map fun slot => slot.1.word.toNat

theorem card_words {t : Table α} (h : Descending t.slots) (hcounted : t.live = t.slots.length) :
    t.words.toFinset.card = t.live := by
  have hnodup : t.words.Nodup := by
    refine List.pairwise_map.mpr (h.imp ?_)
    intro before after hlt heq
    exact (UInt64.lt_iff_toNat_lt.mp hlt).ne heq.symm
  rw [List.toFinset_card_of_nodup hnodup, words, List.length_map, hcounted]

/-- The pool holds the identifiers in range that name no object, and every object knows its own. -/
structure Partitioned [Identified α] (t : Table α) : Prop where
  apart : Apart 1 t.pool.regions
  descending : Descending t.slots
  counted : t.live = t.slots.length
  named : ∀ id, (t.get? id).isSome ↔ Pool.InRange id.word.toNat ∧ ¬ t.pool.Holds id.word.toNat
  known : ∀ id a, t.get? id = some a → Identified.ident a = id

theorem partitioned_empty [Identified α] : (empty : Table α).Partitioned where
  apart := apart_all
  descending := .nil
  counted := rfl
  named := by
    intro id
    refine iff_of_false (by simp [get?, empty, lookup]) ?_
    rintro ⟨⟨hfirst, hlast⟩, hfree⟩
    exact hfree ⟨⟨1, Pool.limit - 1⟩, List.mem_singleton_self _, hfirst, hlast⟩
  known := by
    intro id a hget
    simp [get?, empty, lookup] at hget

variable {t t' : Table α} {id made : ObjectId}

theorem exists_taken {make : ObjectId → α} (h : Apart 1 t.pool.regions)
    (hmade : t.createAt id make = .ok (made, t')) :
    ∃ left, Pool.takeIn? made.word.toNat t.pool.regions = some left ∧
      t' = { t with pool := ⟨left⟩ }.put made (make made) := by
  rcases Bool.eq_false_or_eq_true id.isNull with hid | hid
  · rw [createAt_null t hid, create_eq] at hmade
    cases hleast : t.pool.takeLeast? with
    | none => simp [hleast] at hmade
    | some taken =>
        obtain ⟨n, pool⟩ := taken
        simp only [hleast, Except.ok.injEq, Prod.mk.injEq] at hmade
        obtain ⟨rfl, rfl⟩ := hmade
        obtain ⟨left, htake, rfl, hn⟩ := Pool.takeLeast?_eq_some h hleast
        have hlt : n < UInt64.size := Word.lt_size (h.le_of_holds hn).2
        refine ⟨left, ?_, rfl⟩
        rw [UInt64.toNat_ofNat_of_lt' hlt]
        exact htake
  · rw [createAt_eq t (by simp [hid])] at hmade
    cases htake : t.pool.take? id.word.toNat with
    | none => simp [htake] at hmade
    | some pool =>
        simp only [htake, Except.ok.injEq, Prod.mk.injEq] at hmade
        obtain ⟨rfl, rfl⟩ := hmade
        obtain ⟨left, hleft, rfl⟩ := Option.map_eq_some_iff.mp htake
        exact ⟨left, hleft, rfl⟩

theorem holds_made {make : ObjectId → α} (h : Apart 1 t.pool.regions)
    (hmade : t.createAt id make = .ok (made, t')) : t.pool.Holds made.word.toNat := by
  obtain ⟨left, htake, -⟩ := exists_taken h hmade
  by_contra hused
  rw [Pool.takeIn?_eq_none hused] at htake
  contradiction

theorem toNat_word_ne {i : ObjectId} (hne : i ≠ id) : i.word.toNat ≠ id.word.toNat := by
  intro heq
  exact hne (congrArg ObjectId.mk (UInt64.toNat_inj.mp heq))

namespace Partitioned

variable [Identified α]

theorem get?_made {make : ObjectId → α} (h : t.Partitioned)
    (hmade : t.createAt id make = .ok (made, t')) : t.get? made = none := by
  rw [← Option.not_isSome_iff_eq_none, h.named]
  exact fun hnamed => hnamed.2 (holds_made h.apart hmade)

theorem createAt {make : ObjectId → α} (h : t.Partitioned)
    (hident : ∀ id, Identified.ident (make id) = id)
    (hmade : t.createAt id make = .ok (made, t')) : t'.Partitioned := by
  have hfree : t.pool.Holds made.word.toNat := holds_made h.apart hmade
  -- An unused identifier names nothing, so that a slot is added and none replaced.
  have hnone : t.get? made = none := h.get?_made hmade
  obtain ⟨left, htake, rfl⟩ := exists_taken h.apart hmade
  obtain ⟨left', htake', hapart, hholds⟩ := Pool.exists_takeIn? h.apart hfree
  obtain rfl : left = left' := Option.some.inj (htake.symm.trans htake')
  refine ⟨hapart, h.descending.insertSlot made (make made), ?_, ?_, ?_⟩
  · change (if (t.get? made).isSome then t.live else t.live + 1) = (insertSlot _ _ t.slots).length
    have hsome : ¬ (t.get? made).isSome := by simp [hnone]
    rw [length_insertSlot, if_neg hsome, h.counted]
    exact (if_neg hsome).symm
  · intro i
    rw [get?_put]
    change _ ↔ _ ∧ ¬ (Pool.mk left).Holds _
    rw [hholds]
    rcases eq_or_ne i made with rfl | hi
    · refine iff_of_true (by simp) ⟨h.apart.le_of_holds hfree, ?_⟩
      rintro ⟨-, hne⟩
      exact hne rfl
    · rw [if_neg hi, and_iff_left (toNat_word_ne hi)]
      exact h.named i
  · intro i a hget
    rw [get?_put] at hget
    split at hget
    · rename_i hi
      rw [← Option.some.inj hget, hident, hi]
    · exact h.known i a hget

theorem update {f : α → α} (h : t.Partitioned)
    (hident : ∀ a, Identified.ident (f a) = Identified.ident a) :
    (t.update id f).Partitioned := by
  cases hlive : t.get? id with
  | none =>
      have hsame : t.update id f = t := by rw [Table.update, hlive]
      rw [hsame]
      exact h
  | some a =>
      have hslots : t.update id f = { t with slots := insertSlot id (f a) t.slots } := by
        rw [Table.update, hlive]
      have hsome : (lookup id t.slots).isSome := Option.isSome_of_eq_some hlive
      refine ⟨?_, ?_, ?_, ?_, ?_⟩
      · rw [pool_update]
        exact h.apart
      · rw [hslots]
        exact h.descending.insertSlot id (f a)
      · rw [hslots, h.counted, length_insertSlot, if_pos hsome]
      · intro i
        rw [pool_update, get?_update]
        rcases eq_or_ne i id with rfl | hi
        · rw [if_pos rfl, Option.isSome_map]
          exact h.named i
        · rw [if_neg hi]
          exact h.named i
      · intro i b hget
        rw [get?_update] at hget
        split at hget
        · rename_i hi
          obtain ⟨a, hold, rfl⟩ := Option.map_eq_some_iff.mp hget
          rw [hident, hi]
          exact h.known id a hold
        · exact h.known i b hget

theorem kill (h : t.Partitioned) (id : ObjectId) : (t.kill id).2.Partitioned := by
  rw [Table.kill]
  split
  · rename_i hlive
    -- It names an object, so it is in range and its number goes back for certain.
    obtain ⟨⟨hfirst, hlast⟩, -⟩ := (h.named id).mp hlive
    have hgive : t.pool.give id.word.toNat = ⟨Pool.giveIn id.word.toNat t.pool.regions⟩ :=
      if_neg (by omega)
    refine ⟨?_, h.descending.eraseSlot id, ?_, ?_, ?_⟩
    · change Apart 1 (t.pool.give id.word.toNat).regions
      rw [hgive]
      exact Pool.apart_giveIn h.apart hfirst hlast
    · change t.live - 1 = (eraseSlot id t.slots).length
      rw [length_eraseSlot hlive, h.counted]
    · intro i
      change (lookup i (eraseSlot id t.slots)).isSome ↔ _ ∧ ¬ (t.pool.give id.word.toNat).Holds _
      rw [lookup_eraseSlot h.descending, hgive, Pool.holds_giveIn]
      rcases eq_or_ne i id with rfl | hi
      · simp
      · rw [if_neg hi, or_iff_right (toNat_word_ne hi)]
        exact h.named i
    · intro i a hget
      change lookup i (eraseSlot id t.slots) = some a at hget
      rw [lookup_eraseSlot h.descending] at hget
      split at hget
      · contradiction
      · exact h.known i a hget
  · exact h

theorem mem_words (h : t.Partitioned) {n : Nat} :
    n ∈ t.words ↔ Pool.InRange n ∧ ¬ t.pool.Holds n := by
  constructor
  · intro hn
    obtain ⟨⟨id, a⟩, hslot, rfl⟩ := List.mem_map.mp hn
    have hget : t.get? id = some a := (lookup_eq_some_iff h.descending).mpr hslot
    exact (h.named id).mp (Option.isSome_of_eq_some hget)
  · rintro ⟨hrange, hused⟩
    have hvalue : (UInt64.ofNat n).toNat = n := UInt64.toNat_ofNat_of_lt' (Word.lt_size hrange.2)
    have hlive : (t.get? ⟨UInt64.ofNat n⟩).isSome := by
      rw [h.named, hvalue]
      exact ⟨hrange, hused⟩
    obtain ⟨a, hget⟩ := Option.isSome_iff_exists.mp hlive
    exact List.mem_map.mpr ⟨_, (lookup_eq_some_iff h.descending).mp hget, hvalue⟩

theorem words_union_numbers (h : t.Partitioned) :
    t.words.toFinset ∪ Pool.numbers t.pool.regions = Finset.Ico 1 Pool.limit := by
  ext n
  rw [Finset.mem_union, List.mem_toFinset, h.mem_words, Pool.mem_numbers, Finset.mem_Ico]
  constructor
  · rintro (⟨hrange, -⟩ | hfree)
    · exact hrange
    · exact h.apart.le_of_holds hfree
  · intro hrange
    rcases Classical.em (t.pool.Holds n) with hfree | hused
    · exact .inr hfree
    · exact .inl ⟨hrange, hused⟩

theorem disjoint_words_numbers (h : t.Partitioned) :
    Disjoint t.words.toFinset (Pool.numbers t.pool.regions) := by
  rw [Finset.disjoint_left]
  intro n hn hfree
  exact (h.mem_words.mp (List.mem_toFinset.mp hn)).2 (Pool.mem_numbers.mp hfree)

theorem live_add_size (h : t.Partitioned) : t.live + t.pool.size = Pool.limit - 1 := by
  calc t.live + t.pool.size
      = t.words.toFinset.card + (Pool.numbers t.pool.regions).card := by
        rw [card_words h.descending h.counted, Pool.card_numbers h.apart]
    _ = (t.words.toFinset ∪ Pool.numbers t.pool.regions).card :=
        (Finset.card_union_of_disjoint h.disjoint_words_numbers).symm
    _ = Pool.limit - 1 := by rw [h.words_union_numbers, Nat.card_Ico]

end Partitioned

end Table

theorem Entity.ident_mapSource {f : Source → Source} (hident : ∀ s, (f s).id = s.id) (e : Entity) :
    Identified.ident (e.mapSource f) = Identified.ident e := by
  cases e with
  | source s => exact hident s
  | marker id => rfl

namespace World

theorem partitioned_moveAll (size : UInt32) (moves : List Move) :
    ((new size).moveAll moves).objects.Partitioned := by
  apply moveAll_keeps_objects
  · intro t t' id made make h hident hmade
    have hknown (id : ObjectId) : Identified.ident (Entity.source (make id)) = id := hident id
    exact h.createAt hknown hmade
  · intro t id f h hident
    exact h.update (Entity.ident_mapSource hident)
  · intro t id h
    exact h.kill id
  · exact Table.partitioned_empty

/-- Whatever happens to a new world, each identifier from one to the word before the largest is
either unused or names an object, the null and the largest one name none, every object knows the
identifier it is found under, and objects and unused identifiers are together as many as at the
beginning. -/
theorem moveAll_partitions (size : UInt32) (moves : List Move) :
    let objects := ((new size).moveAll moves).objects
    (∀ id : ObjectId, 1 ≤ id.word → id.word ≤ Word.largest - 1 →
        Xor (objects.isFree id = true) ((objects.get? id).isSome = true)) ∧
      objects.get? .null = none ∧ objects.get? ⟨Word.largest⟩ = none ∧
      (∀ id e, objects.get? id = some e → Identified.ident e = id) ∧
      objects.size + objects.freeCount = UInt64.size - 2 := by
  intro objects
  have h : objects.Partitioned := partitioned_moveAll size moves
  have hnone (id : ObjectId) (hid : ¬ Pool.InRange id.word.toNat) : objects.get? id = none := by
    rw [← Option.not_isSome_iff_eq_none, h.named]
    exact fun hnamed => hid hnamed.1
  refine ⟨?_, hnone _ ?_, hnone _ ?_, h.known, h.live_add_size⟩
  · intro id hfirst hlast
    have hlast' : id.word.toNat ≤ Pool.limit - 1 := UInt64.le_iff_toNat_le.mp hlast
    have hrange : Pool.InRange id.word.toNat :=
      ⟨UInt64.le_iff_toNat_le.mp hfirst, Nat.lt_of_le_pred (by decide) hlast'⟩
    have hfree : objects.isFree id = true ↔ objects.pool.Holds id.word.toNat :=
      Pool.isFreeIn_iff h.apart
    rw [hfree, h.named, and_iff_right hrange]
    exact xor_not_right.mpr Iff.rfl
  · rintro ⟨hfirst, -⟩
    exact absurd hfirst (by decide)
  · rintro ⟨-, hlast⟩
    exact absurd hlast (by decide)

end World

end Terrarium
