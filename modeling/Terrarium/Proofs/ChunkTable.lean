import Mathlib.Data.List.Pairwise
import Terrarium.Proofs.TableRuns

namespace Terrarium

open Table (chunkSize)

/-- A table as slots in chunks. -/
structure ChunkTable (α : Type) where
  chunks : Std.TreeMap UInt64 (Array (Option α))
  pool : WordPool
  live : UInt64

namespace ChunkTable

variable {α : Type}

def empty : ChunkTable α := ⟨∅, WordPool.all, 0⟩

/-- The slots of a chunk that was not set aside so far. -/
def blank : Array (Option α) := Array.replicate chunkSize none

/-- The chunk of an identifier and the place of its slot in it. The null identifier has neither. -/
def place? (id : ObjectId) : Option (UInt64 × Nat) :=
  (Word.minus? id.word 1).map fun offset =>
    (offset / UInt64.ofNat chunkSize, (offset % UInt64.ofNat chunkSize).toNat)

/-- What a slot holds, which is nothing where its chunk was not set aside. -/
def slot? (k : ChunkTable α) (chunk : UInt64) (n : Nat) : Option (Option α) :=
  match k.chunks[chunk]? with
  | none => some none
  | some slots => slots[n]?

/-- Writes a slot, setting its chunk aside first. -/
def write? (k : ChunkTable α) (chunk : UInt64) (n : Nat) (slot : Option α) :
    Option (ChunkTable α) :=
  let slots := k.chunks[chunk]?.getD blank
  if n < slots.size then
    some { k with chunks := k.chunks.insert chunk (slots.setIfInBounds n slot) }
  else none

/-- The object stored under an identifier. -/
def get? (k : ChunkTable α) (id : ObjectId) : Option (Option α) :=
  match place? id with
  | none => some none
  | some (chunk, n) => k.slot? chunk n

/-- The count of objects with the one of a slot that held another one or none. -/
def count? (k : ChunkTable α) (old : Option α) : Option UInt64 :=
  if old.isSome then some k.live else Word.plus? k.live 1

/-- Stores an object under an identifier other than the null one. -/
def put? (k : ChunkTable α) (id : ObjectId) (a : α) : Option (ChunkTable α) := do
  let live ← k.count? (← k.get? id)
  let (chunk, n) ← place? id
  let k ← k.write? chunk n (some a)
  return { k with live }

/-- Changes the object under an identifier. -/
def update? (k : ChunkTable α) (id : ObjectId) (f : α → α) : Option (ChunkTable α) := do
  match ← k.get? id with
  | none => return k
  | some a =>
      let (chunk, n) ← place? id
      k.write? chunk n (some (f a))

def takeId? (k : ChunkTable α) : Option (ObjectId × ChunkTable α) := do
  let (id, pool) ← k.pool.takeLeast?
  return (⟨id⟩, { k with pool })

def giveId? (k : ChunkTable α) (id : ObjectId) : Option (ChunkTable α) := do
  let pool ← k.pool.give? id.word
  return { k with pool }

/-- Makes an object under a chosen identifier, for the null one under the least unused. -/
def createAt? (k : ChunkTable α) (id : ObjectId) (make : ObjectId → α) :
    Option (Except StoreError (ObjectId × ChunkTable α)) := do
  if id.isNull then
    let (id, k) ← k.takeId?
    return .ok (id, ← k.put? id (make id))
  else
    match ← k.pool.take? id.word with
    | .error e => return .error e
    | .ok pool => return .ok (id, ← { k with pool }.put? id (make id))

/-- Removes the object under an identifier and gives the identifier back. -/
def kill? (k : ChunkTable α) (id : ObjectId) : Option (Bool × ChunkTable α) := do
  match ← k.get? id with
  | none => return (false, k)
  | some _ =>
      let (chunk, n) ← place? id
      let k ← k.write? chunk n none
      let live ← Word.minus? k.live 1
      return (true, ← { k with live }.giveId? id)

/-- The table after an object was made or refused. -/
def after (k : ChunkTable α) : Except StoreError (ObjectId × ChunkTable α) → ChunkTable α
  | .ok (_, made) => made
  | .error _ => k

section

variable [Identified α]

/-- The identifiers that the objects report, from the least slot up. -/
def ids (k : ChunkTable α) : List ObjectId :=
  k.chunks.toList.flatMap fun chunk => chunk.2.toList.filterMap fun slot =>
    slot.map Identified.ident

/-- The table after a call. One that is refused leaves the table as it was. -/
def call? (k : ChunkTable α) : Table.Call α → Option (ChunkTable α)
  | .takeId => k.takeId?.map (·.2)
  | .giveId id => k.giveId? id
  | .create make => (k.createAt? .null make).map k.after
  | .createAt id make => (k.createAt? id make).map k.after
  | .store a => if (Identified.ident a).isNull then some k else k.put? (Identified.ident a) a
  | .update id f => k.update? id f
  | .kill id => (k.kill? id).map (·.2)

/-- The table after calls in turn. -/
def callAll? (k : ChunkTable α) (calls : List (Table.Call α)) : Option (ChunkTable α) :=
  calls.foldlM call? k

end

variable {k : ChunkTable α} {t t' : Table α} {id i : ObjectId} {chunk : UInt64} {n : Nat}

theorem place?_eq_some_iff :
    place? id = some (chunk, n) ↔
      id.word.toNat = chunkSize * chunk.toNat + n + 1 ∧ n < chunkSize := by
  have hchunk : (UInt64.ofNat chunkSize).toNat = chunkSize := by decide
  constructor
  · intro h
    obtain ⟨offset, hoffset, hplace⟩ := Option.map_eq_some_iff.mp h
    obtain ⟨rfl, rfl⟩ := Prod.mk.inj hplace
    have hfirst : 0 < id.word.toNat := by
      rw [Word.minus?, Option.ite_none_right_eq_some] at hoffset
      exact UInt64.le_iff_toNat_le.mp hoffset.1
    obtain ⟨offset', hoffset', hvalue⟩ := Word.exists_pred? hfirst
    obtain rfl : offset = offset' := Option.some.inj (hoffset.symm.trans hoffset')
    rw [UInt64.toNat_div, UInt64.toNat_mod, hchunk, hvalue]
    exact ⟨by rw [Nat.div_add_mod]; omega, Nat.mod_lt _ (by decide)⟩
  · rintro ⟨hid, hn⟩
    obtain ⟨offset, hoffset, hvalue⟩ := Word.exists_pred? (a := id.word) (by omega)
    rw [hid, Nat.add_sub_cancel] at hvalue
    rw [place?, hoffset, Option.map_some, Option.some.injEq, Prod.mk.injEq]
    constructor
    · rw [← UInt64.toNat_inj, UInt64.toNat_div, hchunk, hvalue, Nat.mul_add_div (by decide),
        Nat.div_eq_of_lt hn, Nat.add_zero]
    · rw [UInt64.toNat_mod, hchunk, hvalue, Nat.mul_add_mod, Nat.mod_eq_of_lt hn]

theorem exists_place? (hid : ¬ id.isNull) : ∃ chunk n, place? id = some (chunk, n) := by
  obtain ⟨offset, hoffset, -⟩ := Word.exists_pred? (Table.word_pos hid)
  exact ⟨_, _, by rw [place?, hoffset, Option.map_some]⟩

theorem eq_of_place? (hid : place? id = some (chunk, n)) (hi : place? i = some (chunk, n)) :
    i = id := by
  by_contra hne
  apply Table.toNat_word_ne hne
  rw [(place?_eq_some_iff.mp hi).1, (place?_eq_some_iff.mp hid).1]

theorem get?_of_place? (hid : place? id = some (chunk, n)) : k.get? id = k.slot? chunk n := by
  rw [get?, hid]

/-- Whether the chunks have all their slots. -/
def Full (k : ChunkTable α) : Prop :=
  ∀ (chunk : UInt64) (slots : Array (Option α)), k.chunks[chunk]? = some slots →
    slots.size = chunkSize

theorem Full.lt_of_slot? (h : k.Full) {a : α} (hslot : k.slot? chunk n = some (some a)) :
    n < chunkSize := by
  rw [slot?] at hslot
  split at hslot
  · simp at hslot
  · rename_i slots hchunk
    rw [← h chunk slots hchunk]
    exact (Array.getElem?_eq_some_iff.mp hslot).1

theorem getElem?_getD_blank (hn : n < chunkSize) :
    (k.chunks[chunk]?.getD blank)[n]? = k.slot? chunk n := by
  rw [slot?]
  cases k.chunks[chunk]? with
  | none => exact Array.getElem?_replicate.trans (if_pos hn)
  | some slots => rfl

theorem Full.exists_write? (h : k.Full) (chunk : UInt64) (hn : n < chunkSize) (slot : Option α) :
    ∃ k', k.write? chunk n slot = some k' ∧ k'.pool = k.pool ∧ k'.live = k.live ∧ k'.Full ∧
      ∀ c m, m < chunkSize →
        k'.slot? c m = if c = chunk ∧ m = n then some slot else k.slot? c m := by
  have hsize : (k.chunks[chunk]?.getD blank).size = chunkSize := by
    cases hchunk : k.chunks[chunk]? with
    | none => exact Array.size_replicate
    | some slots => exact h chunk slots hchunk
  refine ⟨_, if_pos (hn.trans_eq hsize.symm), rfl, rfl, ?_, ?_⟩
  · intro c slots hslots
    rw [Std.TreeMap.getElem?_insert] at hslots
    split at hslots
    · rw [← Option.some.inj hslots, Array.size_setIfInBounds, hsize]
    · exact h c slots hslots
  · intro c m hm
    rw [slot?, Std.TreeMap.getElem?_insert]
    by_cases hc : c = chunk
    · subst hc
      rw [if_pos Std.ReflCmp.compare_self]
      change (Array.setIfInBounds _ n slot)[m]? = _
      rw [Array.getElem?_setIfInBounds, hsize, if_pos hn, getElem?_getD_blank hm]
      simp [eq_comm]
    · have hother : compare chunk c ≠ .eq := fun heq => hc (Std.LawfulEqCmp.eq_of_compare heq).symm
      rw [if_neg hother, if_neg fun heq => hc heq.1]
      rfl

/-- Chunks with all their slots, of which only those of identifiers hold anything. -/
structure Whole (k : ChunkTable α) : Prop where
  full : k.Full
  placed : ∀ chunk n a, k.slot? chunk n = some (some a) → ∃ id, place? id = some (chunk, n)

theorem whole_empty : (empty : ChunkTable α).Whole := by
  constructor
  · intro chunk slots hslots
    simp [empty] at hslots
  · intro chunk n a hslot
    simp [slot?, empty] at hslot

theorem Whole.exists_write? (h : k.Whole) (hid : place? id = some (chunk, n)) (slot : Option α) :
    ∃ k', k.write? chunk n slot = some k' ∧ k'.pool = k.pool ∧ k'.live = k.live ∧ k'.Whole ∧
      ∀ i, k'.get? i = if i = id then some slot else k.get? i := by
  obtain ⟨k', hwrite, hpool, hlive, hfull, hslots⟩ :=
    h.full.exists_write? chunk (place?_eq_some_iff.mp hid).2 slot
  refine ⟨k', hwrite, hpool, hlive, ⟨hfull, ?_⟩, ?_⟩
  · intro c m a hslot
    rw [hslots c m (hfull.lt_of_slot? hslot)] at hslot
    split at hslot
    · rename_i hsame
      obtain ⟨rfl, rfl⟩ := hsame
      exact ⟨id, hid⟩
    · exact h.placed c m a hslot
  · intro i
    cases hi : place? i with
    | none =>
        have hne : i ≠ id := by
          rintro rfl
          simp [hi] at hid
        rw [if_neg hne, get?, hi, get?, hi]
    | some place =>
        obtain ⟨c, m⟩ := place
        rw [get?_of_place? hi, hslots c m (place?_eq_some_iff.mp hi).2, get?_of_place? hi]
        refine if_congr ?_ rfl rfl
        constructor
        · rintro ⟨rfl, rfl⟩
          exact eq_of_place? hid hi
        · rintro rfl
          rw [hi, Option.some.injEq, Prod.mk.injEq] at hid
          exact hid

/-- Whether slots in chunks hold what a table holds, with the same unused identifiers and count. -/
structure Stands (k : ChunkTable α) (t : Table α) : Prop where
  whole : k.Whole
  found : ∀ id, k.get? id = some (t.get? id)
  pool : k.pool.pool = t.pool
  live : k.live.toNat = t.live

theorem stands_empty : (empty : ChunkTable α).Stands .empty where
  whole := whole_empty
  found id := by
    rw [get?]
    split
    · rfl
    · simp [slot?, empty]
      rfl
  pool := rfl
  live := rfl

namespace Stands

theorem withPool (h : k.Stands t) {w : WordPool} {p : Pool} (hpool : w.pool = p) :
    { k with pool := w }.Stands { t with pool := p } :=
  ⟨⟨h.whole.full, h.whole.placed⟩, h.found, hpool, h.live⟩

theorem exists_put? (h : k.Stands t) (hid : ¬ id.isNull) (a : α)
    (hlive : (t.put id a).live ≤ Pool.limit) :
    ∃ k', k.put? id a = some k' ∧ k'.Stands (t.put id a) := by
  obtain ⟨chunk, n, hplace⟩ := exists_place? hid
  obtain ⟨k', hwrite, hpool, -, hwhole, hget⟩ := h.whole.exists_write? hplace (some a)
  obtain ⟨live, hcount, hvalue⟩ :
      ∃ live, k.count? (t.get? id) = some live ∧ live.toNat = (t.put id a).live := by
    rw [Table.put] at hlive ⊢
    rw [count?]
    split
    · exact ⟨k.live, rfl, h.live⟩
    · rename_i hnew
      rw [if_neg hnew, ← h.live] at hlive
      rw [← h.live]
      exact Word.exists_plus? hlive
  refine ⟨{ k' with live }, ?_, ⟨hwhole.full, hwhole.placed⟩, ?_, ?_, hvalue⟩
  · simp [put?, h.found, hcount, hplace, hwrite]
  · intro i
    refine (hget i).trans ?_
    rw [Table.get?_put, h.found]
    split <;> rfl
  · exact (congrArg WordPool.pool hpool).trans h.pool

theorem exists_update? (h : k.Stands t) (ht : t.Tidy) (id : ObjectId) (f : α → α) :
    ∃ k', k.update? id f = some k' ∧ k'.Stands (t.update id f) := by
  cases hlive : t.get? id with
  | none =>
      refine ⟨k, by simp [update?, h.found, hlive], ?_⟩
      rwa [Table.update, hlive]
  | some a =>
      have hid : ¬ id.isNull := ht.not_isNull (Option.isSome_of_eq_some hlive)
      obtain ⟨chunk, n, hplace⟩ := exists_place? hid
      obtain ⟨k', hwrite, hpool, hcount, hwhole, hget⟩ := h.whole.exists_write? hplace (some (f a))
      refine ⟨k', by simp [update?, h.found, hlive, hplace, hwrite], hwhole, ?_, ?_, ?_⟩
      · intro i
        rw [hget, Table.get?_update, hlive, h.found]
        split <;> rfl
      · rw [hpool, h.pool, Table.pool_update]
      · rw [hcount, h.live, Table.update, hlive]

theorem exists_takeId? (h : k.Stands t) (ht : t.Tidy) (htake : t.takeId? = some (id, t')) :
    ∃ k', k.takeId? = some (id, k') ∧ k'.Stands t' := by
  obtain ⟨⟨n, p⟩, hleast, heq⟩ := Option.map_eq_some_iff.mp htake
  obtain ⟨rfl, rfl⟩ := Prod.mk.inj heq
  rw [← h.pool] at hleast
  obtain ⟨word, w, hw, rfl, hpool⟩ := WordPool.exists_takeLeast? (h.pool ▸ ht.apart) hleast
  refine ⟨{ k with pool := w }, ?_, h.withPool hpool⟩
  rw [takeId?, hw, UInt64.ofNat_toNat]
  rfl

theorem exists_giveId? (h : k.Stands t) (ht : Apart 1 t.pool.regions) (id : ObjectId) :
    ∃ k', k.giveId? id = some k' ∧ k'.Stands (t.giveId id) := by
  obtain ⟨w, hw, hpool⟩ := WordPool.exists_give? (h.pool ▸ ht) id.word
  refine ⟨{ k with pool := w }, ?_, h.withPool ?_⟩
  · rw [giveId?, hw]
    rfl
  · rw [hpool, h.pool]

theorem exists_kill? (h : k.Stands t) (ht : t.Tidy) (id : ObjectId) :
    ∃ k', k.kill? id = some ((t.kill id).1, k') ∧ k'.Stands (t.kill id).2 := by
  rw [Table.kill]
  split
  · rename_i hlive
    obtain ⟨a, ha⟩ := Option.isSome_iff_exists.mp hlive
    obtain ⟨chunk, n, hplace⟩ := exists_place? (ht.not_isNull hlive)
    obtain ⟨k', hwrite, hpool, hcount, hwhole, hget⟩ := h.whole.exists_write? hplace none
    have hvalue : k'.live.toNat = t.live := (congrArg UInt64.toNat hcount).trans h.live
    obtain ⟨live, hminus, hless⟩ := Word.exists_pred? (hvalue ▸ ht.live_pos hlive)
    have hcleared : { k' with live }.Stands
        { t with slots := Table.eraseSlot id t.slots, live := t.live - 1 } := by
      refine ⟨⟨hwhole.full, hwhole.placed⟩, ?_, (congrArg WordPool.pool hpool).trans h.pool, ?_⟩
      · intro i
        refine (hget i).trans ?_
        change _ = some (Table.lookup i (Table.eraseSlot id t.slots))
        rw [Table.lookup_eraseSlot ht.descending, h.found]
        split <;> rfl
      · exact hless.trans (congrArg (· - 1) hvalue)
    obtain ⟨last, hlast, hstands⟩ := hcleared.exists_giveId? ht.apart id
    refine ⟨last, ?_, hstands⟩
    simp [kill?, h.found, ha, hplace, hwrite, hminus, hlast]
  · rename_i hdead
    refine ⟨k, ?_, h⟩
    simp [kill?, h.found, Option.not_isSome_iff_eq_none.mp hdead]

theorem take?_eq (h : k.Stands t) (ht : Apart 1 t.pool.regions) (hid : ¬ id.isNull) :
    match t.pool.take? id.word.toNat with
    | none => k.pool.take? id.word = some (.error (.idInUse id))
    | some p => ∃ w, k.pool.take? id.word = some (.ok w) ∧ w.pool = p := by
  have hne : id.word ≠ 0 := fun hzero => (Table.word_pos hid).ne' (congrArg UInt64.toNat hzero)
  obtain ⟨result, hresult, hpool⟩ := WordPool.exists_take? (h.pool ▸ ht) hne
  rw [h.pool] at hpool
  rw [hresult]
  generalize t.pool.take? id.word.toNat = taken at hpool ⊢
  cases result with
  | error e =>
      cases taken with
      | none => exact congrArg (some <| Except.error ·) (Except.error.inj hpool)
      | some p => simp [Except.map] at hpool
  | ok w =>
      cases taken with
      | none => simp [Except.map] at hpool
      | some p => exact ⟨w, rfl, Except.ok.inj hpool⟩

theorem exists_createAt? (h : k.Stands t) (ht : t.Tidy) {make : ObjectId → α} {made : ObjectId}
    (hmade : t.createAt id make = .ok (made, t')) :
    ∃ k', k.createAt? id make = some (.ok (made, k')) ∧ k'.Stands t' := by
  have hlive : t'.live ≤ Pool.limit := (ht.createAt hmade).live_le
  have hnew : ¬ made.isNull := ht.made_not_isNull hmade
  by_cases hid : id.isNull
  · rw [Table.createAt_null t hid, Table.create] at hmade
    split at hmade
    · contradiction
    · rename_i least next htake
      obtain ⟨rfl, rfl⟩ := Prod.mk.inj (Except.ok.inj hmade)
      obtain ⟨k', hk', hstands⟩ := h.exists_takeId? ht htake
      obtain ⟨last, hlast, hput⟩ := hstands.exists_put? hnew _ hlive
      exact ⟨last, by simp [createAt?, hid, hk', hlast], hput⟩
  · have htake := h.take?_eq ht.apart hid
    rw [Table.createAt_eq t hid] at hmade
    split at hmade
    · contradiction
    · rename_i p hp
      obtain ⟨rfl, rfl⟩ := Prod.mk.inj (Except.ok.inj hmade)
      rw [hp] at htake
      obtain ⟨w, hw, hpool⟩ := htake
      obtain ⟨last, hlast, hput⟩ := (h.withPool hpool).exists_put? hnew (make id) hlive
      exact ⟨last, by simp [createAt?, hid, hw, hlast], hput⟩

theorem createAt?_error (h : k.Stands t) (ht : t.Tidy) {make : ObjectId → α} {e : StoreError}
    (hmade : t.createAt id make = .error e) (he : e ≠ .exhausted) :
    k.createAt? id make = some (.error e) := by
  by_cases hid : id.isNull
  · rw [Table.createAt_null t hid, Table.create] at hmade
    split at hmade
    · exact absurd (Except.error.inj hmade).symm he
    · contradiction
  · have htake := h.take?_eq ht.apart hid
    rw [Table.createAt_eq t hid] at hmade
    split at hmade
    · rename_i hp
      obtain rfl := Except.error.inj hmade
      rw [hp] at htake
      simp [createAt?, hid, htake]
    · contradiction

variable [Identified α]

/-- Where a call goes through on a table, it does so on the chunks that stand for it. -/
theorem exists_call? (h : k.Stands t) (ht : t.Tidy) {c : Table.Call α}
    (hcall : t.call? c = some t') : ∃ k', k.call? c = some k' ∧ k'.Stands t' := by
  have hlive : t'.live ≤ Pool.limit := (ht.call? hcall).live_le
  cases Table.effect_of_call? hcall with
  | taken htake =>
      obtain ⟨k', hk', hstands⟩ := h.exists_takeId? ht htake
      exact ⟨k', by rw [call?, hk', Option.map_some], hstands⟩
  | given id => exact h.exists_giveId? ht.apart id
  | created hc hmade =>
      obtain ⟨k', hk', hstands⟩ := h.exists_createAt? ht hmade
      refine ⟨k', ?_, hstands⟩
      rcases hc with ⟨rfl, rfl⟩ | rfl <;> rw [call?, hk', Option.map_some, after]
  | refused hmade he =>
      exact ⟨k, by rw [call?, h.createAt?_error ht hmade he, Option.map_some, after], h⟩
  | stored hid =>
      obtain ⟨k', hk', hstands⟩ := h.exists_put? hid _ hlive
      exact ⟨k', by rw [call?, if_neg hid, hk'], hstands⟩
  | unstored hid => exact ⟨k, by rw [call?, if_pos hid], h⟩
  | updated id f => exact h.exists_update? ht id f
  | killed id =>
      obtain ⟨k', hk', hstands⟩ := h.exists_kill? ht id
      exact ⟨k', by rw [call?, hk', Option.map_some], hstands⟩

end Stands

/-- A run of calls on a new table goes through on chunks as well, where each place is within its
array and no word overflows, and leads to chunks that stand for the table. -/
theorem exists_callAll? [Identified α] {calls : List (Table.Call α)}
    (h : Table.empty.callAll? calls = some t) :
    ∃ k, empty.callAll? calls = some k ∧ k.Stands t := by
  induction calls using List.reverseRecOn generalizing t with
  | nil =>
      obtain rfl : Table.empty = t := Option.some.inj h
      exact ⟨empty, rfl, stands_empty⟩
  | append_singleton calls c ih =>
      rw [Table.callAll?_concat] at h
      obtain ⟨past, hpast, hcall⟩ := Option.bind_eq_some_iff.mp h
      obtain ⟨k, hk, hstands⟩ := ih hpast
      obtain ⟨k', hk', hstands'⟩ := hstands.exists_call? (Table.tidy_callAll? hpast) hcall
      refine ⟨k', ?_, hstands'⟩
      rw [callAll?, List.foldlM_append]
      change (empty.callAll? calls).bind _ = _
      rw [hk, Option.bind_some, List.foldlM_cons, hk']
      rfl

end ChunkTable

end Terrarium
