import Mathlib.Data.Finmap
import Mathlib.Data.List.Sort
import Terrarium.Proofs.ChunkTable
import Terrarium.Proofs.SourceOrder

namespace Terrarium

/-- A finite map from identifiers to objects. -/
abbrev Contents (α : Type) := Finmap fun _ : ObjectId => α

namespace Table

variable {α : Type} {t t' : Table α} {id i : ObjectId} {m : Contents α}

/-- The objects by identifier. -/
def contents (t : Table α) : Contents α := t.slots.foldr (fun slot m => m.insert slot.1 slot.2) ∅

theorem lookup_insert (m : Contents α) (id i : ObjectId) (a : α) :
    (m.insert id a).lookup i = if i = id then some a else m.lookup i := by
  split
  · rename_i hi
    rw [hi, Finmap.lookup_insert]
  · rename_i hi
    exact Finmap.lookup_insert_of_ne m hi

theorem lookup_foldr {slots : List (ObjectId × α)} (h : Descending slots) :
    (slots.foldr (fun slot (m : Contents α) => m.insert slot.1 slot.2) ∅).lookup id =
      lookup id slots := by
  apply Option.ext
  intro a
  rw [lookup_eq_some_iff h]
  induction slots with
  | nil => simp
  | cons slot rest ih =>
      rw [List.foldr_cons, List.mem_cons]
      rw [lookup_insert]
      split
      · rename_i hid
        subst hid
        have hrest : (slot.1, a) ∉ rest := fun hmem => h.ne hmem rfl
        rw [or_iff_left hrest, Prod.ext_iff]
        simp [eq_comm]
      · rename_i hid
        have hslot : (id, a) ≠ slot := fun heq => hid (congrArg Prod.fst heq)
        rw [ih h.of_cons, or_iff_right hslot]

theorem Tidy.lookup_contents (h : t.Tidy) (id : ObjectId) : t.contents.lookup id = t.get? id :=
  lookup_foldr h.descending

theorem mem_iff_of_found (hfound : ∀ id, t.get? id = m.lookup id) :
    id ∈ m ↔ (t.get? id).isSome := by
  rw [hfound, Finmap.lookup_isSome]

theorem Tidy.mem_keys (h : t.Tidy) : id ∈ t.slots.map (·.1) ↔ (t.get? id).isSome := by
  rw [Option.isSome_iff_exists, List.mem_map]
  constructor
  · rintro ⟨⟨i, a⟩, hslot, rfl⟩
    exact ⟨a, (lookup_eq_some_iff h.descending).mpr hslot⟩
  · rintro ⟨a, ha⟩
    exact ⟨(id, a), (lookup_eq_some_iff h.descending).mp ha, rfl⟩

theorem Tidy.card_keys (h : t.Tidy) (hfound : ∀ id, t.get? id = m.lookup id) :
    t.size = m.keys.card := by
  have hnodup : (t.slots.map (·.1)).Nodup := by
    refine List.pairwise_map.mpr (h.descending.imp ?_)
    intro before after hlt heq
    rw [heq] at hlt
    exact UInt64.lt_irrefl _ hlt
  have hkeys : m.keys = (t.slots.map (·.1)).toFinset := by
    ext id
    rw [Finmap.mem_keys, mem_iff_of_found hfound, List.mem_toFinset, h.mem_keys]
  rw [hkeys, List.toFinset_card_of_nodup hnodup, List.length_map]
  exact h.counted

variable [Identified α]

/-- Whether every object reports the identifier that it is stored under. -/
def Reported (t : Table α) : Prop := ∀ slot ∈ t.slots, Identified.ident slot.2 = slot.1

instance (t : Table α) : Decidable t.Reported :=
  inferInstanceAs (Decidable (∀ slot ∈ t.slots, Identified.ident slot.2 = slot.1))

namespace Reported

theorem ident (h : t.Reported) (ht : t.Tidy) {a : α} (hget : t.get? id = some a) :
    Identified.ident a = id := h (id, a) ((lookup_eq_some_iff ht.descending).mp hget)

theorem insertSlot {a : α} (h : t.Reported) (hident : Identified.ident a = id) :
    ∀ slot ∈ insertSlot id a t.slots, Identified.ident slot.2 = slot.1 := by
  intro slot hslot
  rcases mem_insertSlot hslot with rfl | hslot
  · exact hident
  · exact h slot hslot

theorem ids_eq (h : t.Reported) : t.ids = (t.slots.map (·.1)).reverse := by
  rw [ids, List.map_congr_left h]

end Reported

/-- How a table shows a map: it finds what the map has, and counts and lists its keys. -/
structure Shows (t : Table α) (m : Contents α) : Prop where
  found : ∀ id, t.get? id = m.lookup id
  foundAs : ∀ {β : Type} (kind : α → Option β) (id : ObjectId),
    t.getAs? kind id = (m.lookup id).bind kind
  null : .null ∉ m
  counted : t.size = m.keys.card
  ascending : t.ids.Pairwise fun before after => before.word < after.word
  listed : ∀ id, id ∈ t.ids ↔ id ∈ m

/-- How a table serves a map: it shows it, and goes over with each operation to a table that shows
the map changed at one identifier. What does not go through changes nothing at all. -/
structure ServesMap (t : Table α) (m : Contents α) : Prop extends t.Shows m where
  created : ∀ id make made t', Identified.ident (make made) = made →
    t.create make = .ok (made, t') ∨ t.createAt id make = .ok (made, t') →
      t'.Shows (m.insert made (make made))
  uncreated : ∀ id make e, t.createAt id make = .error e → e ≠ .exhausted →
    t.call? (.createAt id make) = some t
  stored : ∀ a, ¬ (Identified.ident a).isNull →
    ∃ t', t.store a = .ok t' ∧ t'.Shows (m.insert (Identified.ident a) a)
  unstored : ∀ a, (Identified.ident a).isNull →
    t.store a = .error .nullId ∧ t.call? (.store a) = some t
  updated : ∀ id f a, m.lookup id = some a → Identified.ident (f a) = id →
    (t.update id f).Shows (m.insert id (f a))
  unmet : ∀ id f, id ∉ m → t.update id f = t
  taken : ∀ id t', t.takeId? = some (id, t') → t'.Shows m
  given : ∀ id, (t.giveId id).Shows m
  killed : ∀ id, ((t.kill id).1 = true ↔ id ∈ m) ∧ (t.kill id).2.Shows (m.erase id)
  unkilled : ∀ id, (t.kill id).1 = false → (t.kill id).2 = t
  killedTwice : ∀ id, (t.kill id).2.kill id = (false, (t.kill id).2)

theorem Tidy.shows (h : t.Tidy) (hreported : t.Reported) (hfound : ∀ id, t.get? id = m.lookup id) :
    t.Shows m where
  found := hfound
  foundAs kind id := by rw [getAs?, hfound]
  null := by simp [mem_iff_of_found hfound, h.null]
  counted := h.card_keys hfound
  ascending := by
    rw [hreported.ids_eq, List.pairwise_reverse]
    exact List.pairwise_map.mpr h.descending
  listed id := by rw [hreported.ids_eq, List.mem_reverse, h.mem_keys, mem_iff_of_found hfound]

theorem Tidy.shows_put (h : t.Tidy) (hreported : t.Reported)
    (hfound : ∀ id, t.get? id = m.lookup id) (hid : ¬ id.isNull) {a : α}
    (hident : Identified.ident a = id) : (t.put id a).Shows (m.insert id a) := by
  refine (h.put hid a).shows (hreported.insertSlot hident) ?_
  intro i
  rw [get?_put, lookup_insert, hfound]

theorem servesMap_of_found (h : t.Tidy) (hreported : t.Reported)
    (hfound : ∀ id, t.get? id = m.lookup id) : t.ServesMap m where
  toShows := h.shows hreported hfound
  created := by
    rintro id make made t' hident hcreate
    have hmade : ∃ id, t.createAt id make = .ok (made, t') := by
      rcases hcreate with hmade | hmade
      · exact ⟨.null, (createAt_null t rfl make).trans hmade⟩
      · exact ⟨id, hmade⟩
    obtain ⟨id, hmade⟩ := hmade
    have hnew := h.made_not_isNull hmade
    obtain ⟨left, rfl, -, hleft, -⟩ := h.exists_made hmade
    exact (h.withPool hleft).shows_put hreported hfound hnew hident
  uncreated := by
    intro id make e hmade he
    rw [call?, hmade]
    cases e <;> first | rfl | contradiction
  stored a hid := ⟨_, store_eq hid, h.shows_put hreported hfound hid rfl⟩
  unstored a hid := ⟨store_null hid, by rw [call?, store_null hid]⟩
  updated := by
    intro id f a ha hident
    rw [← hfound] at ha
    refine (h.update id f).shows ?_ ?_
    · rw [update, ha]
      exact hreported.insertSlot hident
    · intro i
      rw [get?_update, lookup_insert, ha, hfound]
      rfl
  unmet := by
    intro id f hid
    rw [mem_iff_of_found hfound, Option.not_isSome_iff_eq_none] at hid
    rw [update, hid]
  taken := by
    intro id t' htake
    obtain ⟨left, hleft, rfl⟩ := takeId?_eq_some h.apart htake
    exact (h.withPool (Pool.takeIn?_eq_some h.apart hleft).2.1).shows hreported hfound
  given id := (h.withPool (h.give id)).shows hreported hfound
  killed := by
    intro id
    refine ⟨?_, (h.kill id).shows ?_ ?_⟩
    · rw [mem_iff_of_found hfound, kill]
      split <;> simp_all
    · rw [kill]
      split
      · exact fun slot hslot => hreported slot ((eraseSlot_sublist id t.slots).subset hslot)
      · exact hreported
    · intro i
      rw [get?_kill h.descending]
      split
      · rename_i hi
        rw [hi, Finmap.lookup_erase]
      · rename_i hi
        rw [Finmap.lookup_erase_ne hi, hfound]
  unkilled := by
    intro id hkilled
    rw [kill] at hkilled ⊢
    split
    · simp_all
    · rfl
  killedTwice := by
    intro id
    have hgone : ¬ ((t.kill id).2.get? id).isSome := by simp [get?_kill h.descending]
    rw [kill, if_neg hgone]

end Table

namespace ChunkTable

variable {α : Type} {k : ChunkTable α} {t : Table α} {id i : ObjectId} {chunk c : UInt64}
  {n l : Nat}

theorem word_lt_of_place? (hid : place? id = some (chunk, n)) (hi : place? i = some (c, l))
    (hbefore : chunk < c ∨ chunk = c ∧ n < l) : id.word < i.word := by
  obtain ⟨hword, hn⟩ := place?_eq_some_iff.mp hid
  obtain ⟨hword', -⟩ := place?_eq_some_iff.mp hi
  rw [UInt64.lt_iff_toNat_lt, hword, hword']
  simp only [Table.chunkSize] at hn ⊢
  rcases hbefore with hlt | ⟨rfl, hlt⟩
  · have hchunk := UInt64.lt_iff_toNat_lt.mp hlt
    omega
  · omega

namespace Stands

variable [Identified α]

theorem place?_ident (h : k.Stands t) (ht : t.Tidy) (hreported : t.Reported)
    {slots : Array (Option α)} {a : α} (hchunk : (chunk, slots) ∈ k.chunks.toList)
    (hslot : slots.toList[n]? = some (some a)) :
    place? (Identified.ident a) = some (chunk, n) ∧ t.get? (Identified.ident a) = some a := by
  have hslot' : k.slot? chunk n = some (some a) := by
    rw [slot?, Std.TreeMap.mem_toList_iff_getElem?_eq_some.mp hchunk, ← hslot]
    exact Array.getElem?_toList.symm
  obtain ⟨id, hid⟩ := h.whole.placed chunk n a hslot'
  have hget : t.get? id = some a := by
    rw [← Option.some.injEq, ← h.found, get?_of_place? hid, hslot']
  rw [hreported.ident ht hget]
  exact ⟨hid, hget⟩

theorem exists_place?_ident (h : k.Stands t) (ht : t.Tidy) (hreported : t.Reported)
    {slots : Array (Option α)} (hchunk : (chunk, slots) ∈ k.chunks.toList)
    (hid : id ∈ slots.toList.filterMap fun slot => slot.map Identified.ident) :
    (∃ n, place? id = some (chunk, n)) ∧ (t.get? id).isSome := by
  obtain ⟨slot, hslot, hmap⟩ := List.mem_filterMap.mp hid
  obtain ⟨a, rfl, rfl⟩ := Option.map_eq_some_iff.mp hmap
  obtain ⟨n, hn⟩ := List.mem_iff_getElem?.mp hslot
  obtain ⟨hplace, hget⟩ := h.place?_ident ht hreported hchunk hn
  exact ⟨⟨n, hplace⟩, Option.isSome_of_eq_some hget⟩

theorem mem_ids (h : k.Stands t) (ht : t.Tidy) (hreported : t.Reported) :
    id ∈ k.ids ↔ (t.get? id).isSome := by
  rw [ids, List.mem_flatMap]
  constructor
  · rintro ⟨chunk, hchunk, hid⟩
    exact (h.exists_place?_ident ht hreported hchunk hid).2
  · intro hlive
    obtain ⟨a, ha⟩ := Option.isSome_iff_exists.mp hlive
    obtain ⟨chunk, n, hplace⟩ := exists_place? (ht.not_isNull hlive)
    have hslot : k.slot? chunk n = some (some a) := by
      rw [← get?_of_place? hplace, h.found, ha]
    rw [slot?] at hslot
    split at hslot
    · simp at hslot
    · rename_i slots hslots
      have hmem : some a ∈ slots.toList := Array.mem_toList_iff.mpr (Array.mem_of_getElem? hslot)
      refine ⟨(chunk, slots), Std.TreeMap.mem_toList_iff_getElem?_eq_some.mpr hslots, ?_⟩
      exact List.mem_filterMap.mpr ⟨some a, hmem, congrArg some (hreported.ident ht ha)⟩

theorem pairwise_ids (h : k.Stands t) (ht : t.Tidy) (hreported : t.Reported) :
    k.ids.Pairwise fun before after => before.word < after.word := by
  rw [ids, List.pairwise_flatMap]
  constructor
  · rintro ⟨chunk, slots⟩ hchunk
    rw [List.pairwise_filterMap, List.pairwise_iff_getElem]
    intro n l hn hl hlt id hid i hi
    obtain ⟨a, ha, rfl⟩ := Option.map_eq_some_iff.mp hid
    obtain ⟨b, hb, rfl⟩ := Option.map_eq_some_iff.mp hi
    have hplace := h.place?_ident ht hreported hchunk (List.getElem?_eq_some_iff.mpr ⟨hn, ha⟩)
    have hplace' := h.place?_ident ht hreported hchunk (List.getElem?_eq_some_iff.mpr ⟨hl, hb⟩)
    exact word_lt_of_place? hplace.1 hplace'.1 (.inr ⟨rfl, hlt⟩)
  · refine k.chunks.ordered_keys_toList.imp_of_mem ?_
    intro before after hbefore hafter hlt id hid i hi
    obtain ⟨⟨n, hplace⟩, -⟩ := h.exists_place?_ident ht hreported hbefore hid
    obtain ⟨⟨l, hplace'⟩, -⟩ := h.exists_place?_ident ht hreported hafter hi
    exact word_lt_of_place? hplace hplace' (.inl (Std.compare_eq_lt.mp hlt))

theorem ids_eq (h : k.Stands t) (ht : t.Tidy) (hreported : t.Reported) : k.ids = t.ids := by
  have hshows := ht.shows hreported fun id => (ht.lookup_contents id).symm
  have : Std.Irrefl fun before after : ObjectId => before.word < after.word :=
    ⟨fun id => UInt64.lt_irrefl id.word⟩
  refine (h.pairwise_ids ht hreported).eq_of_mem_iff hshows.ascending ?_
  intro id
  rw [h.mem_ids ht hreported, hshows.listed, Table.mem_iff_of_found hshows.found]

end Stands

end ChunkTable

/-- In whatever way a new table is used, there is a finite map that it shows and serves, provided
that every object reports the identifier that it is stored under. The run goes through on slots in
chunks as well, within their bounds and without an overflow; these find the same objects, count as
many and list the same identifiers. -/
theorem Table.callAll?_servesMap {α : Type} [Identified α] {calls : List (Call α)} {t : Table α}
    (hcalls : empty.callAll? calls = some t) (hreported : t.Reported) :
    ∃ m : Contents α, t.ServesMap m ∧
      ∃ k : ChunkTable α, ChunkTable.empty.callAll? calls = some k ∧
        (∀ id, k.get? id = some (m.lookup id)) ∧ k.live.toNat = m.keys.card ∧ k.ids = t.ids ∧
          k.pool.pool = t.pool := by
  have htidy : t.Tidy := tidy_callAll? hcalls
  have hserves : t.ServesMap t.contents :=
    servesMap_of_found htidy hreported fun id => (htidy.lookup_contents id).symm
  obtain ⟨k, hk, hstands⟩ := ChunkTable.exists_callAll? hcalls
  refine ⟨t.contents, hserves, k, hk, ?_, ?_, hstands.ids_eq htidy hreported, hstands.pool⟩
  · intro id
    rw [hstands.found, hserves.found]
  · rw [hstands.live, ← hserves.counted]
    rfl

theorem Table.callAll?_servesMap_far :
    let largest : ObjectId := ⟨Word.largest⟩
    let calls : List (Call Entity) :=
      [.createAt ⟨4097⟩ .marker, .createAt ⟨4096⟩ .marker, .store (.marker largest), .takeId,
        .store (.marker .null), .createAt ⟨4096⟩ .marker, .kill ⟨2⟩, .store (.marker ⟨4096⟩)]
    ∃ t, empty.callAll? calls = some t ∧ t.ids = [⟨4096⟩, ⟨4097⟩, largest] ∧
      ∃ m : Contents Entity, m.keys.card = 3 ∧ m.lookup largest = some (.marker largest) ∧
        (t.kill ⟨4096⟩).2.Shows (m.erase ⟨4096⟩) := by
  intro largest calls
  have hrun :
      (empty.callAll? calls).map (fun t => (t.ids, t.size, t.get? largest, decide t.Reported)) =
        some ([⟨4096⟩, ⟨4097⟩, largest], 3, some (.marker largest), true) := by decide +kernel
  obtain ⟨t, hcalls, ht⟩ := Option.map_eq_some_iff.mp hrun
  obtain ⟨hids, hsize, hget, hreported⟩ := by simpa only [Prod.mk.injEq] using ht
  obtain ⟨m, hserves, -⟩ := callAll?_servesMap hcalls (of_decide_eq_true hreported)
  exact ⟨t, hcalls, hids, m, hserves.counted.symm.trans hsize, (hserves.found _).symm.trans hget,
    (hserves.killed ⟨4096⟩).2⟩

end Terrarium
