import Mathlib.Data.Set.Card
import Terrarium.Proofs.TableCalls

namespace Terrarium

namespace Pool

variable {p p' : Pool} {word : UInt64}

/-- The words of the unused numbers. -/
def words (p : Pool) : Set UInt64 := {word | p.Holds word.toNat}

theorem ncard_words (h : Apart 1 p.regions) : p.words.ncard = p.size := by
  have himage : UInt64.toNat '' p.words = numbers p.regions := by
    ext n
    rw [Finset.mem_coe, mem_numbers]
    constructor
    · rintro ⟨word, hword, rfl⟩
      exact hword
    · intro hn
      have hlt : n < UInt64.size := Word.lt_size (h.le_of_holds hn).2
      refine ⟨UInt64.ofNat n, ?_, UInt64.toNat_ofNat_of_lt' hlt⟩
      change p.Holds (UInt64.ofNat n).toNat
      rwa [UInt64.toNat_ofNat_of_lt' hlt]
  have hinjective : Function.Injective UInt64.toNat := fun _ _ => UInt64.toNat_inj.mp
  rw [← Set.ncard_image_of_injective _ hinjective, himage, Set.ncard_coe_finset]
  exact card_numbers h

theorem words_of_holds (h : ∀ n, p'.Holds n ↔ p.Holds n ∧ n ≠ word.toNat) :
    p'.words = p.words \ {word} := by
  ext v
  rw [Set.mem_sdiff, Set.mem_singleton_iff, ← UInt64.toNat_inj]
  exact h v.toNat

theorem exists_leastWord (h : Apart 1 p.regions) (hwords : p.words.Nonempty) :
    ∃ word left, p.takeLeast? = some (word.toNat, left) ∧ IsLeast p.words word ∧
      left.words = p.words \ {word} := by
  obtain ⟨v, hv⟩ := hwords
  have hne : p.regions ≠ [] := by
    intro hnil
    obtain ⟨r, hr, -⟩ := hv
    rw [hnil] at hr
    exact List.not_mem_nil hr
  obtain ⟨n, left, hleast, htake, hn, hmin⟩ := exists_takeLeast? h hne
  obtain ⟨left', htake', -, hholds⟩ := exists_takeIn? h hn
  obtain rfl : left = left' := Option.some.inj (htake.symm.trans htake')
  have hvalue : (UInt64.ofNat n).toNat = n :=
    UInt64.toNat_ofNat_of_lt' (Word.lt_size (h.le_of_holds hn).2)
  refine ⟨UInt64.ofNat n, ⟨left⟩, ?_, ⟨?_, ?_⟩, ?_⟩
  · rwa [hvalue]
  · change p.Holds (UInt64.ofNat n).toNat
    rwa [hvalue]
  · intro v hv
    rw [UInt64.le_iff_toNat_le, hvalue]
    exact hmin v.toNat hv
  · apply words_of_holds
    rwa [hvalue]

theorem words_give (hfirst : 1 ≤ word) (hlast : word < Word.largest) :
    (p.give word.toNat).words = insert word p.words := by
  have hpos : 1 ≤ word.toNat := UInt64.le_iff_toNat_le.mp hfirst
  have hlimit : word.toNat < limit := UInt64.lt_iff_toNat_lt.mp hlast
  have hguard : ¬ (word.toNat = 0 ∨ limit ≤ word.toNat) := by omega
  ext v
  rw [Set.mem_insert_iff, ← UInt64.toNat_inj]
  change (p.give word.toNat).Holds v.toNat ↔ _
  rw [give, if_neg hguard]
  exact holds_giveIn

theorem give_eq_self (h : Apart 1 p.regions)
    (hword : word = 0 ∨ word = Word.largest ∨ word ∈ p.words) : p.give word.toNat = p := by
  rw [give]
  split
  · rfl
  · rename_i hguard
    rcases hword with hword | hword | hword
    · exact absurd (.inl (congrArg UInt64.toNat hword)) hguard
    · exact absurd (.inr (congrArg UInt64.toNat hword).ge) hguard
    · exact congrArg mk (giveIn_of_holds h hword)

theorem exists_takeWord (h : Apart 1 p.regions) (hword : word ∈ p.words) :
    ∃ left, p.take? word.toNat = some left ∧ left.words = p.words \ {word} := by
  obtain ⟨left, htake, -, hholds⟩ := exists_takeIn? h hword
  refine ⟨⟨left⟩, ?_, words_of_holds hholds⟩
  rw [take?, htake]
  rfl

theorem take?_eq_none (hword : word ∉ p.words) : p.take? word.toNat = none := by
  rw [take?, takeIn?_eq_none hword]
  rfl

end Pool

namespace WordPool

variable {w : WordPool} {unused : Set UInt64}

/-- What the checked operations on the regions as words do, said with the set of unused words: none
of them stops, and their answers are those of the set. -/
structure ServesSet (w : WordPool) (unused : Set UInt64) : Prop where
  /-- The search by halving finds the words of the set. -/
  found : ∀ word, ∃ answer, w.isFree? word = some answer ∧ (answer = true ↔ word ∈ unused)
  /-- The sum of the counts is the size of the set. -/
  counted : ∃ size, w.size? = some size ∧ size.toNat = unused.ncard
  /-- The word handed out is the least one, and no other is taken. -/
  least : unused.Nonempty → ∃ word w', w.takeLeast? = some (word, w') ∧ IsLeast unused word ∧
    w'.pool.words = unused \ {word}
  /-- A word given back is in the set from then on. -/
  given : ∀ word, 1 ≤ word → word < Word.largest →
    ∃ w', w.give? word = some w' ∧ w'.pool.words = insert word unused
  /-- The null word, the largest one and unused ones change nothing when they are given back. -/
  ignored : ∀ word, word = 0 ∨ word = Word.largest ∨ word ∈ unused → w.give? word = some w
  /-- A chosen word of the set is taken, and no other. -/
  taken : ∀ word, word ≠ 0 → word ∈ unused →
    ∃ w', w.take? word = some (.ok w') ∧ w'.pool.words = unused \ {word}
  /-- A chosen word that is not in the set is refused with a reason that names it. -/
  refused : ∀ word, word ≠ 0 → word ∉ unused → w.take? word = some (.error (.idInUse ⟨word⟩))

theorem servesSet_words (h : Apart 1 w.pool.regions) : w.ServesSet w.pool.words where
  found word := ⟨w.pool.isFree word.toNat, isFree?_eq h word, Pool.isFreeIn_iff h⟩
  counted := by
    obtain ⟨size, hsize, hvalue⟩ := exists_size? h
    exact ⟨size, hsize, hvalue.trans (Pool.ncard_words h).symm⟩
  least := by
    intro hwords
    obtain ⟨word, left, htake, hleast, hleft⟩ := Pool.exists_leastWord h hwords
    obtain ⟨word', w', hw', hvalue, rfl⟩ := exists_takeLeast? h htake
    obtain rfl : word' = word := UInt64.toNat_inj.mp hvalue
    exact ⟨word', w', hw', hleast, hleft⟩
  given := by
    intro word hfirst hlast
    obtain ⟨w', hw', hpool⟩ := exists_give? h word
    exact ⟨w', hw', by rw [hpool, Pool.words_give hfirst hlast]⟩
  ignored := by
    intro word hword
    obtain ⟨w', hw', hpool⟩ := exists_give? h word
    obtain rfl : w' = w := eq_of_pool (hpool.trans (Pool.give_eq_self h hword))
    exact hw'
  taken := by
    intro word hzero hword
    obtain ⟨left, htake, hleft⟩ := Pool.exists_takeWord h hword
    obtain ⟨result, hresult, hmap⟩ := exists_take? h hzero
    rw [htake] at hmap
    cases result with
    | error e => contradiction
    | ok w' =>
        obtain rfl : w'.pool = left := Except.ok.inj hmap
        exact ⟨w', hresult, hleft⟩
  refused := by
    intro word hzero hword
    obtain ⟨result, hresult, hmap⟩ := exists_take? h hzero
    rw [Pool.take?_eq_none hword] at hmap
    cases result with
    | error e =>
        obtain rfl := Except.error.inj hmap
        exact hresult
    | ok w' => contradiction

end WordPool

namespace Table

variable {α : Type}

/-- The words of the unused identifiers. -/
def free (t : Table α) : Set UInt64 := {word | t.pool.Holds word.toNat}

/-- What the operations of a table do, said with the set of its unused words. -/
structure ServesSet [Identified α] (t : Table α) (unused : Set UInt64) : Prop where
  /-- The search finds the words of the set. -/
  found : ∀ id, t.isFree id = true ↔ id.word ∈ unused
  /-- The count is the size of the set. -/
  counted : t.freeCount = unused.ncard
  /-- The word handed out is the least one, and no other is taken. -/
  least : unused.Nonempty → ∃ id t', t.takeId? = some (id, t') ∧ IsLeast unused id.word ∧
    t'.free = unused \ {id.word}
  /-- A word given back is in the set from then on. -/
  given : ∀ id, 1 ≤ id.word → id.word < Word.largest → (t.giveId id).free = insert id.word unused
  /-- The null word, the largest one and unused ones change nothing when they are given back. -/
  ignored : ∀ id, id.word = 0 ∨ id.word = Word.largest ∨ id.word ∈ unused → t.giveId id = t
  /-- A chosen word of the set is taken, and no other. -/
  taken : ∀ id make, ¬ id.isNull → id.word ∈ unused →
    ∃ t', t.createAt id make = .ok (id, t') ∧ t'.free = unused \ {id.word}
  /-- A chosen word that is not in the set is refused, and the table stays as it was. -/
  refused : ∀ id make, ¬ id.isNull → id.word ∉ unused →
    t.createAt id make = .error (.idInUse id) ∧ t.call? (.createAt id make) = some t

theorem free_empty :
    (empty : Table α).free = {word | 1 ≤ word ∧ word ≤ Word.largest - 1} := by
  ext word
  have hholds : Pool.all.Holds word.toNat ↔ 1 ≤ word.toNat ∧ word.toNat < Pool.limit := by
    simp [Pool.all, Pool.holds_cons, Pool.not_holds_nil, Region.Holds, Region.stop, Pool.limit]
  have hlast : (Word.largest - 1).toNat = Pool.limit - 1 := rfl
  rw [Set.mem_ofPred_eq, UInt64.le_iff_toNat_le, UInt64.le_iff_toNat_le, hlast]
  exact hholds.trans (and_congr_right' (Nat.lt_iff_le_pred (by decide)))

variable {t t' : Table α}

theorem servesSet_free [Identified α] (h : Apart 1 t.pool.regions) : t.ServesSet t.free where
  found id := Pool.isFreeIn_iff h
  counted := (Pool.ncard_words h).symm
  least := by
    intro hwords
    obtain ⟨word, left, htake, hleast, hleft⟩ := Pool.exists_leastWord h hwords
    exact ⟨⟨word⟩, { t with pool := left }, by simp [takeId?, htake], hleast, hleft⟩
  given id hfirst hlast := Pool.words_give hfirst hlast
  ignored id hid := by rw [giveId, Pool.give_eq_self h hid]
  taken := by
    intro id make hid hfree
    obtain ⟨left, htake, hleft⟩ := Pool.exists_takeWord h hfree
    have hcreate : t.createAt id make = .ok (id, { t with pool := left }.put id (make id)) := by
      rw [createAt_eq t hid, htake]
    exact ⟨_, hcreate, hleft⟩
  refused := by
    intro id make hid hfree
    have hrefused : t.createAt id make = .error (.idInUse id) := by
      rw [createAt_eq t hid, Pool.take?_eq_none hfree]
    refine ⟨hrefused, ?_⟩
    rw [call?, hrefused]

/-- Every table that calls lead to from a new one, whose set holds all words but the null one and
the largest, serves the set of its unused words; and so do the regions as words, after the same
run. -/
theorem callAll?_servesSet [Identified α] {calls : List (Call α)}
    (h : empty.callAll? calls = some t) :
    (empty : Table α).free = {word | 1 ≤ word ∧ word ≤ Word.largest - 1} ∧ t.ServesSet t.free ∧
      ∃ w, calls.foldlM callWords? (empty, WordPool.all) = some (t, w) ∧ w.ServesSet t.free := by
  have hapart : Apart 1 t.pool.regions := apart_callAll? apart_all h
  obtain ⟨w, hw, hpool⟩ := exists_callAllWords? (w := WordPool.all) rfl apart_all h
  have hserves : w.ServesSet w.pool.words := WordPool.servesSet_words (hpool ▸ hapart)
  rw [hpool] at hserves
  exact ⟨free_empty, servesSet_free hapart, w, hw, hserves⟩

theorem callAll?_servesSet_split :
    let calls : List (Call Entity) :=
      [.createAt ⟨10⟩ .marker, .createAt ⟨9⟩ .marker, .kill ⟨10⟩, .takeId, .store (.marker ⟨30⟩)]
    ∃ t, empty.callAll? calls = some t ∧ t.pool.regions = [⟨2, 7⟩, ⟨10, UInt64.size - 11⟩] ∧
      t.freeCount = t.free.ncard ∧
      t.createAt ⟨9⟩ .marker = .error (.idInUse ⟨9⟩) ∧ t.giveId ⟨10⟩ = t := by
  intro calls
  have hrun : (empty.callAll? calls).map (·.pool.regions) =
      some [⟨2, 7⟩, ⟨10, UInt64.size - 11⟩] := by decide
  obtain ⟨t, hcalls, hregions⟩ := Option.map_eq_some_iff.mp hrun
  obtain ⟨-, hserves, -⟩ := callAll?_servesSet hcalls
  have hmem (word : UInt64) : word ∈ t.free ↔ t.pool.isFree word.toNat = true :=
    (hserves.found ⟨word⟩).symm
  have hnine : (9 : UInt64) ∉ t.free := by
    rw [hmem, Pool.isFree, hregions]
    decide
  have hten : (10 : UInt64) ∈ t.free := by
    rw [hmem, Pool.isFree, hregions]
    decide
  exact ⟨t, hcalls, hregions, hserves.counted, (hserves.refused ⟨9⟩ .marker (by decide) hnine).1,
    hserves.ignored ⟨10⟩ (.inr (.inr hten))⟩

end Table

end Terrarium
