import Mathlib.Data.List.Sort
import Terrarium.Proofs.FreeIds
import Terrarium.Proofs.TableRuns

/-!
The regions of a pool as the stretches of its set. Regions that ascend with gaps between them are
the maximal runs of the numbers they hold: a set has one such list of regions, and no other list for
it is shorter. So what a table has unused decides its regions, and where identifiers are given back
or taken in another order, the regions come out the same.
-/
namespace Terrarium

variable {low low' n : Nat} {regions cover : List Region} {r s c : Region} {p p' : Pool}

/-- A run of numbers of a pool with no number of the pool right before or right after it. -/
structure Pool.IsStretch (p : Pool) (r : Region) : Prop where
  count_pos : 0 < r.count
  holds : ∀ n, r.Holds n → p.Holds n
  below : ∀ n, n + 1 = r.first → ¬ p.Holds n
  above : ¬ p.Holds r.stop

theorem Region.holds_first (hcount : 0 < r.count) : r.Holds r.first :=
  ⟨le_rfl, Nat.lt_add_of_pos_right hcount⟩

theorem Region.eq_of_bounds (hfirst : r.first = s.first) (hstop : r.stop = s.stop) : r = s := by
  obtain ⟨first, count⟩ := r
  obtain ⟨first', count'⟩ := s
  obtain rfl : first = first' := hfirst
  obtain rfl : count = count' := Nat.add_left_cancel hstop
  rfl

/-- Whether a region ends before another one begins, with a gap between them. -/
def Region.Before (r s : Region) : Prop := r.stop < s.first

instance : Std.Irrefl Region.Before :=
  ⟨fun r hr => absurd r.first_le_stop (Nat.not_le.mpr hr)⟩

instance : Std.Antisymm Region.Before := by
  refine ⟨fun r s (hrs : r.stop < s.first) (hsr : s.stop < r.first) => ?_⟩
  have hr := r.first_le_stop
  have hs := s.first_le_stop
  omega

theorem Apart.eq_of_touching (h : Apart low regions) (hr : r ∈ regions) (hs : s ∈ regions)
    (hrs : r.first ≤ s.stop) (hsr : s.first ≤ r.stop) : r = s := by
  induction h with
  | nil low => exact absurd hr List.not_mem_nil
  | cons hlow hcount hstop hrest ih =>
      rcases List.mem_cons.mp hr with rfl | hr'
      · rcases List.mem_cons.mp hs with rfl | hs'
        · rfl
        · exact absurd (hrest.le_first s hs') (Nat.not_le.mpr (Nat.lt_succ_of_le hsr))
      · rcases List.mem_cons.mp hs with rfl | hs'
        · exact absurd (hrest.le_first r hr') (Nat.not_le.mpr (Nat.lt_succ_of_le hrs))
        · exact ih hr' hs'

theorem Apart.nodup (h : Apart low regions) : regions.Nodup := by
  refine h.pairwise.imp ?_
  rintro r s hgap rfl
  exact absurd hgap (Nat.not_lt.mpr r.first_le_stop)

namespace Pool

/-- Numbers of the pool in a row that meet a stretch lie in it as a whole. -/
theorem IsStretch.contains (h : p.IsStretch r) (hs : ∀ m, s.Holds m → p.Holds m) (hn : r.Holds n)
    (hn' : s.Holds n) : r.first ≤ s.first ∧ s.stop ≤ r.stop := by
  obtain ⟨hfirst, hstop⟩ := hn
  obtain ⟨hfirst', hstop'⟩ := hn'
  constructor
  · by_contra hbelow
    exact h.below (r.first - 1) (by omega) (hs _ ⟨by omega, by omega⟩)
  · by_contra habove
    exact h.above (hs _ ⟨by omega, by omega⟩)

theorem IsStretch.eq_of_holds (hr : p.IsStretch r) (hs : p.IsStretch s) (hn : r.Holds n)
    (hn' : s.Holds n) : r = s := by
  obtain ⟨hfirst, hstop⟩ := hr.contains hs.holds hn hn'
  obtain ⟨hfirst', hstop'⟩ := hs.contains hr.holds hn' hn
  exact Region.eq_of_bounds (hfirst.antisymm hfirst') (hstop'.antisymm hstop)

/-- Numbers of the pool in a row meet no two stretches. -/
theorem IsStretch.eq_of_meets (hr : p.IsStretch r) (hs : p.IsStretch s)
    (hc : ∀ n, c.Holds n → p.Holds n) (hrc : c.Holds r.first) (hsc : c.Holds s.first) : r = s := by
  obtain ⟨hbelow, habove⟩ := hs.contains hc (Region.holds_first hs.count_pos) hsc
  have hin : s.Holds r.first := ⟨hbelow.trans hrc.1, hrc.2.trans_le habove⟩
  exact hr.eq_of_holds hs (Region.holds_first hr.count_pos) hin

theorem isStretch_of_mem (h : Apart low p.regions) (hr : r ∈ p.regions) : p.IsStretch r where
  count_pos := h.count_pos r hr
  holds n hn := ⟨r, hr, hn⟩
  below := by
    rintro n hfirst ⟨s, hs, hfirst', hstop'⟩
    have hself := r.first_le_stop
    obtain rfl : r = s := h.eq_of_touching hr hs (by omega) (by omega)
    omega
  above := by
    rintro ⟨s, hs, hfirst', hstop'⟩
    have hself := r.first_le_stop
    obtain rfl : r = s := h.eq_of_touching hr hs (by omega) hfirst'
    exact lt_irrefl _ hstop'

theorem mem_regions_iff (h : Apart low p.regions) : r ∈ p.regions ↔ p.IsStretch r := by
  refine ⟨isStretch_of_mem h, fun hr => ?_⟩
  obtain ⟨s, hs, hfirst⟩ := hr.holds r.first (Region.holds_first hr.count_pos)
  obtain rfl : r = s :=
    hr.eq_of_holds (isStretch_of_mem h hs) (Region.holds_first hr.count_pos) hfirst
  exact hs

theorem IsStretch.congr (hsame : ∀ n, p.Holds n ↔ p'.Holds n) (hr : p.IsStretch r) :
    p'.IsStretch r where
  count_pos := hr.count_pos
  holds n hn := (hsame n).mp (hr.holds n hn)
  below n hn hheld := hr.below n hn ((hsame n).mpr hheld)
  above hheld := hr.above ((hsame _).mpr hheld)

theorem eq_of_holds (h : Apart low p.regions) (h' : Apart low' p'.regions)
    (hsame : ∀ n, p.Holds n ↔ p'.Holds n) : p = p' := by
  have hregions : p.regions = p'.regions := by
    refine List.Pairwise.eq_of_mem_iff (r := Region.Before) h.pairwise h'.pairwise ?_
    intro r
    rw [mem_regions_iff h, mem_regions_iff h']
    exact ⟨.congr hsame, .congr fun n => (hsame n).symm⟩
  exact congrArg mk hregions

/-- No list of regions for the same set is shorter. -/
theorem length_regions_le (h : Apart low p.regions) (hcover : ∀ n, (mk cover).Holds n ↔ p.Holds n) :
    p.regions.length ≤ cover.length := by
  have hmeets : ∀ r ∈ p.regions, ∃ c ∈ cover, c.Holds r.first := fun r hr =>
    (hcover r.first).mpr ⟨r, hr, Region.holds_first (h.count_pos r hr)⟩
  -- Each stretch has a region of its own in the other list: one that holds its first number.
  have : Nonempty Region := ⟨⟨0, 0⟩⟩
  choose! own hmem hfirst using hmeets
  have hown : Set.InjOn own p.regions.toFinset := by
    intro r hr s hs hsame
    replace hr : r ∈ p.regions := List.mem_toFinset.mp hr
    replace hs : s ∈ p.regions := List.mem_toFinset.mp hs
    have hheld : ∀ n, (own s).Holds n → p.Holds n := fun n hn =>
      (hcover n).mp ⟨own s, hmem s hs, hn⟩
    exact (isStretch_of_mem h hr).eq_of_meets (isStretch_of_mem h hs) hheld
      (hsame ▸ hfirst r hr) (hfirst s hs)
  calc p.regions.length = p.regions.toFinset.card := (List.toFinset_card_of_nodup h.nodup).symm
    _ ≤ cover.toFinset.card := by
        refine Finset.card_le_card_of_injOn own ?_ hown
        intro r hr
        exact List.mem_toFinset.mpr (hmem r (List.mem_toFinset.mp hr))
    _ ≤ cover.length := List.toFinset_card_le cover

end Pool

namespace Table

variable {α : Type} {t t' t₁ t₂ : Table α} {w w' : WordPool} {ids ids' : List ObjectId}

theorem holds_iff_mem_free (h : Apart 1 t.pool.regions) :
    t.pool.Holds n ↔ n < UInt64.size ∧ UInt64.ofNat n ∈ t.free := by
  have hvalue (hlt : n < UInt64.size) : (UInt64.ofNat n).toNat = n := UInt64.toNat_ofNat_of_lt' hlt
  constructor
  · intro hn
    have hlt := Word.lt_size (h.le_of_holds hn).2
    refine ⟨hlt, ?_⟩
    change t.pool.Holds (UInt64.ofNat n).toNat
    rwa [hvalue hlt]
  · rintro ⟨hlt, hn⟩
    change t.pool.Holds (UInt64.ofNat n).toNat at hn
    rwa [hvalue hlt] at hn

theorem pool_eq_of_free (h : Apart 1 t.pool.regions) (h' : Apart 1 t'.pool.regions)
    (hfree : t.free = t'.free) : t.pool = t'.pool := by
  refine Pool.eq_of_holds h h' fun n => ?_
  rw [holds_iff_mem_free h, holds_iff_mem_free h', hfree]

theorem apart_giveAll (h : Apart 1 t.pool.regions) (ids : List ObjectId) :
    Apart 1 (ids.foldl giveId t).pool.regions := by
  induction ids generalizing t with
  | nil => exact h
  | cons id ids ih => exact ih (Pool.apart_serve? h (q := .back id) rfl)

theorem mem_free_giveId {word : UInt64} {id : ObjectId} :
    word ∈ (t.giveId id).free ↔
      (⟨word⟩ = id ∧ Pool.InRange word.toNat) ∨ word ∈ t.free := by
  obtain ⟨given⟩ := id
  change (t.pool.give given.toNat).Holds word.toNat ↔ _
  rw [Pool.holds_give, UInt64.toNat_inj, ObjectId.mk.injEq]
  refine or_congr_left (and_congr_right ?_)
  rintro rfl
  exact Iff.rfl

theorem free_giveId {id : ObjectId} (hrange : Pool.InRange id.word.toNat) :
    (t.giveId id).free = insert id.word t.free := by
  ext word
  rw [mem_free_giveId, Set.mem_insert_iff]
  refine or_congr_left ⟨fun h => congrArg ObjectId.word h.1, ?_⟩
  rintro rfl
  exact ⟨rfl, hrange⟩

theorem mem_free_giveAll {word : UInt64} :
    word ∈ (ids.foldl giveId t).free ↔
      (⟨word⟩ ∈ ids ∧ Pool.InRange word.toNat) ∨ word ∈ t.free := by
  induction ids generalizing t with
  | nil => simp
  | cons id ids ih =>
      rw [List.foldl_cons, ih, mem_free_giveId, List.mem_cons, or_and_right, or_assoc,
        or_left_comm]

theorem pool_giveAll_perm (h : Apart 1 t.pool.regions) (hids : ids.Perm ids') :
    (ids.foldl giveId t).pool = (ids'.foldl giveId t).pool := by
  refine pool_eq_of_free (apart_giveAll h ids) (apart_giveAll h ids') ?_
  ext word
  rw [mem_free_giveAll, mem_free_giveAll, hids.mem_iff]

/-- Makes objects under chosen identifiers in turn. -/
def createAll (t : Table α) (make : ObjectId → α) (ids : List ObjectId) :
    Except StoreError (Table α) :=
  ids.foldlM (fun t id => (t.createAt id make).map (·.2)) t

theorem exists_createAll [Identified α] (h : t.Tidy) (make : ObjectId → α) (hids : ids.Nodup)
    (hfree : ∀ id ∈ ids, id.word ∈ t.free) :
    ∃ t', t.createAll make ids = .ok t' ∧ t'.Tidy ∧
      ∀ word, word ∈ t'.free ↔ word ∈ t.free ∧ ⟨word⟩ ∉ ids := by
  induction ids generalizing t with
  | nil => exact ⟨t, rfl, h, by simp⟩
  | cons id ids ih =>
      obtain ⟨hnew, hids⟩ := List.nodup_cons.mp hids
      obtain ⟨hid, hothers⟩ := List.forall_mem_cons.mp hfree
      have hnull : ¬ id.isNull := not_isNull_of_inRange (h.apart.le_of_holds hid)
      obtain ⟨next, hnext, hleft⟩ := (servesSet_free h.apart).taken id make hnull hid
      -- The others are not the one that was just taken, and so they are still unused.
      have hstill : ∀ other ∈ ids, other.word ∈ next.free := by
        intro other hother
        rw [hleft]
        refine ⟨hothers other hother, ?_⟩
        rintro (hsame : other.word = id.word)
        obtain ⟨word⟩ := other
        obtain rfl : word = id.word := hsame
        exact hnew hother
      obtain ⟨t', hrest, htidy, hmem⟩ := ih (h.createAt hnext) hids hstill
      refine ⟨t', ?_, htidy, ?_⟩
      · rw [createAll, List.foldlM_cons, hnext]
        exact hrest
      · intro word
        obtain ⟨taken⟩ := id
        rw [hmem, hleft, List.mem_cons, not_or, ObjectId.mk.injEq]
        exact and_assoc

variable [Identified α]

theorem callAll?_giveAll (t : Table α) (ids : List ObjectId) :
    t.callAll? (ids.map .giveId) = some (ids.foldl giveId t) := by
  induction ids generalizing t with
  | nil => rfl
  | cons id ids ih => exact ih (t.giveId id)

theorem callAll?_createAll {make : ObjectId → α} (h : t.createAll make ids = .ok t') :
    t.callAll? (ids.map (.createAt · make)) = some t' := by
  induction ids generalizing t with
  | nil => exact congrArg some (Except.ok.inj h)
  | cons id ids ih =>
      rw [createAll, List.foldlM_cons] at h
      cases hmade : t.createAt id make with
      | error e =>
          rw [hmade] at h
          contradiction
      | ok made =>
          rw [hmade] at h
          have hcall : t.call? (.createAt id make) = some made.2 := by rw [call?, hmade]
          rw [List.map_cons, callAll?, List.foldlM_cons, hcall]
          exact ih h

/-- Two runs from one table that come to an end with the same regions, in numbers and in words. -/
structure EndAlike (s : Table α × WordPool) (calls calls' : List (Call α)) (t t' : Table α) :
    Prop where
  pools : t.pool = t'.pool
  words : ∃ w, calls.foldlM callWords? s = some (t, w) ∧ calls'.foldlM callWords? s = some (t', w)

theorem endAlike {calls calls' : List (Call α)} (hw : w.pool = t.pool)
    (h : Apart 1 t.pool.regions) (hcalls : t.callAll? calls = some t₁)
    (hcalls' : t.callAll? calls' = some t₂) (hpool : t₁.pool = t₂.pool) :
    EndAlike (t, w) calls calls' t₁ t₂ := by
  obtain ⟨w₁, hw₁, hpool₁⟩ := exists_callAllWords? hw h hcalls
  obtain ⟨w₂, hw₂, hpool₂⟩ := exists_callAllWords? hw h hcalls'
  obtain rfl : w₁ = w₂ := WordPool.eq_of_pool (hpool₁.trans (hpool.trans hpool₂.symm))
  exact ⟨hpool, w₁, hw₁, hw₂⟩

/-- A table whose regions depend on its unused words and on nothing else. -/
structure Canonical (t : Table α) (w : WordPool) : Prop where
  /-- The regions are the stretches of the set. -/
  stretches : ∀ r, r ∈ t.pool.regions ↔ t.pool.IsStretch r
  /-- There is no shorter list of regions for the set. -/
  fewest : ∀ cover : List Region, (∀ n, (Pool.mk cover).Holds n ↔ t.pool.Holds n) →
    t.pool.regions.length ≤ cover.length
  /-- Any other run that leaves the same words unused ends with the same regions. -/
  unique : ∀ (calls : List (Call α)) (t' : Table α), empty.callAll? calls = some t' →
    t'.free = t.free → t'.pool.regions = t.pool.regions ∧
      calls.foldlM callWords? (empty, WordPool.all) = some (t', w)
  /-- Identifiers may be given back in any order. -/
  given : ∀ ids ids' : List ObjectId, ids.Perm ids' →
    EndAlike (t, w) (ids.map .giveId) (ids'.map .giveId) (ids.foldl giveId t) (ids'.foldl giveId t)
  /-- Unused identifiers that differ may be chosen in any order, whatever is made under them. -/
  created : ∀ (ids ids' : List ObjectId) (make make' : ObjectId → α), ids.Perm ids' → ids.Nodup →
    (∀ id ∈ ids, t.isFree id = true) →
    ∃ t₁ t₂, t.createAll make ids = .ok t₁ ∧ t.createAll make' ids' = .ok t₂ ∧
      EndAlike (t, w) (ids.map (.createAt · make)) (ids'.map (.createAt · make')) t₁ t₂

/-- In every table that calls lead to from a new one the regions are the only ones that its unused
words can have, and the fewest. -/
theorem callAll?_canonical {calls : List (Call α)} (h : empty.callAll? calls = some t) :
    ∃ w, calls.foldlM callWords? (empty, WordPool.all) = some (t, w) ∧ t.Canonical w := by
  have htidy : t.Tidy := tidy_callAll? h
  obtain ⟨w, hw, hpool⟩ := exists_callAllWords? (w := WordPool.all) rfl apart_all h
  refine ⟨w, hw, fun r => Pool.mem_regions_iff htidy.apart, ?_, ?_, ?_, ?_⟩
  · exact fun cover hcover => Pool.length_regions_le htidy.apart hcover
  · intro calls' t' h' hfree
    have hsame : t'.pool = t.pool := pool_eq_of_free (tidy_callAll? h').apart htidy.apart hfree
    obtain ⟨w', hw', hpool'⟩ := exists_callAllWords? (w := WordPool.all) rfl apart_all h'
    obtain rfl : w' = w := WordPool.eq_of_pool (hpool'.trans (hsame.trans hpool.symm))
    exact ⟨congrArg Pool.regions hsame, hw'⟩
  · intro ids ids' hids
    exact endAlike hpool htidy.apart (callAll?_giveAll t ids) (callAll?_giveAll t ids')
      (pool_giveAll_perm htidy.apart hids)
  · intro ids ids' make make' hids hnodup hfree
    have hunused : ∀ id ∈ ids, id.word ∈ t.free := fun id hid =>
      (Pool.isFreeIn_iff htidy.apart).mp (hfree id hid)
    have hunused' : ∀ id ∈ ids', id.word ∈ t.free := fun id hid =>
      hunused id (hids.mem_iff.mpr hid)
    obtain ⟨t₁, hmade, htidy₁, hmem⟩ := exists_createAll htidy make hnodup hunused
    obtain ⟨t₂, hmade', htidy₂, hmem'⟩ :=
      exists_createAll htidy make' (hids.nodup_iff.mp hnodup) hunused'
    have hpools : t₁.pool = t₂.pool := by
      refine pool_eq_of_free htidy₁.apart htidy₂.apart ?_
      ext word
      rw [hmem, hmem', hids.mem_iff]
    exact ⟨t₁, t₂, hmade, hmade', endAlike hpool htidy.apart (callAll?_createAll hmade)
      (callAll?_createAll hmade') hpools⟩

theorem callAll?_canonical_gaps :
    let calls : List (Call Entity) := [.createAt ⟨10⟩ .marker, .createAt ⟨5⟩ .marker, .takeId]
    let ids : List ObjectId := [⟨5⟩, ⟨10⟩, .null, ⟨1⟩, ⟨10⟩]
    let ids' : List ObjectId := [⟨10⟩, ⟨1⟩, ⟨10⟩, ⟨5⟩, .null]
    ∃ t, empty.callAll? calls = some t ∧
      t.pool.regions = [⟨2, 3⟩, ⟨6, 4⟩, ⟨11, UInt64.size - 12⟩] ∧ ids.Perm ids' ∧
      (ids.foldl giveId t).pool = (ids'.foldl giveId t).pool := by
  intro calls ids ids'
  have hrun : (empty.callAll? calls).map (·.pool.regions) =
      some [⟨2, 3⟩, ⟨6, 4⟩, ⟨11, UInt64.size - 12⟩] := by decide
  obtain ⟨t, hcalls, hregions⟩ := Option.map_eq_some_iff.mp hrun
  obtain ⟨w, -, hcanonical⟩ := callAll?_canonical hcalls
  have hperm : ids.Perm ids' := by decide
  exact ⟨t, hcalls, hregions, hperm, (hcanonical.given ids ids' hperm).pools⟩

end Table

end Terrarium
