import Terrarium.Ident.Table
import Terrarium.Proofs.PoolRegions

/-!
Pools in machine words. Here regions are pairs of 64-bit words, looked for by halving and changed in
place, and every sum and difference is checked: an operation stops where one leaves the range of
words, where a search meets regions out of order, or where a region is not there. Regions that are
apart never let that happen, and what the operations do to them is what those of the pool do.
-/
namespace Terrarium

namespace Word

/-- The sum of two words, unless it overflows. -/
def plus? (a b : UInt64) : Option UInt64 :=
  if a.toNat + b.toNat < UInt64.size then some (a + b) else none

/-- The difference of two words, unless it underflows. -/
def minus? (a b : UInt64) : Option UInt64 := if b ≤ a then some (a - b) else none

def largest : UInt64 := UInt64.ofNat Pool.limit

theorem exists_plus? {a b : UInt64} (h : a.toNat + b.toNat ≤ Pool.limit) :
    ∃ c, plus? a b = some c ∧ c.toNat = a.toNat + b.toNat := by
  have hlt : a.toNat + b.toNat < UInt64.size := Nat.lt_succ_of_le h
  refine ⟨a + b, if_pos hlt, ?_⟩
  rw [UInt64.toNat_add]
  exact Nat.mod_eq_of_lt hlt

theorem exists_minus? {a b : UInt64} (h : b.toNat ≤ a.toNat) :
    ∃ c, minus? a b = some c ∧ c.toNat = a.toNat - b.toNat := by
  have hle : b ≤ a := UInt64.le_iff_toNat_le.mpr h
  exact ⟨a - b, if_pos hle, UInt64.toNat_sub_of_le a b hle⟩

theorem exists_succ? {a : UInt64} (h : a.toNat < Pool.limit) :
    ∃ c, plus? a 1 = some c ∧ c.toNat = a.toNat + 1 :=
  exists_plus? h

theorem exists_pred? {a : UInt64} (h : 0 < a.toNat) :
    ∃ c, minus? a 1 = some c ∧ c.toNat = a.toNat - 1 :=
  exists_minus? h

theorem ne_largest {a : UInt64} (h : a.toNat < Pool.limit) : a ≠ largest := by
  rintro rfl
  exact lt_irrefl _ h

theorem lt_size {n : Nat} (h : n < Pool.limit) : n < UInt64.size := Nat.lt_succ_of_lt h

theorem toNat_le_limit (a : UInt64) : a.toNat ≤ Pool.limit := Nat.le_pred_of_lt a.toNat_lt

end Word

/-- A region as two words. -/
structure WordRegion where
  first : UInt64
  count : UInt64
deriving DecidableEq, Repr

namespace WordRegion

/-- The region that two words stand for. -/
def region (r : WordRegion) : Region := ⟨r.first.toNat, r.count.toNat⟩

theorem first_le_stop (r : WordRegion) : r.first.toNat ≤ r.region.stop := Nat.le_add_right _ _

/-- One past the last word. -/
def stop? (r : WordRegion) : Option UInt64 := Word.plus? r.first r.count

theorem exists_stop? {r : WordRegion} (h : r.region.stop ≤ Pool.limit) :
    ∃ s, r.stop? = some s ∧ s.toNat = r.region.stop :=
  Word.exists_plus? h

end WordRegion

/-- A pool as words. -/
abbrev WordPool := List WordRegion

/-- How a word lies to the region before its place: in it, right after it, or further on. -/
inductive Nearness where
  | inside
  | touching
  | apart
deriving DecidableEq

namespace WordPool

/-- The pool that words stand for. -/
def pool (w : WordPool) : Pool := ⟨w.map WordRegion.region⟩

/-- All words that can ever be handed out. -/
def all : WordPool := [⟨1, Word.largest - 1⟩]

/-- The number of regions that begin at or below a word. They are looked for by halving, which has a
meaning only where they stand in front of all others. -/
def place? (w : WordPool) (id : UInt64) : Option Nat :=
  let place := (w.takeWhile (·.first ≤ id)).length
  if (w.drop place).all (id < ·.first) then some place else none

/-- How a word lies to the region before a place. -/
def below? (w : WordPool) (id : UInt64) : Nat → Option Nearness
  | 0 => some .apart
  | i + 1 => do
      let prev ← w[i]?
      let stop ← prev.stop?
      return if id < stop then .inside else if stop = id then .touching else .apart

/-- Whether the region at a place begins right after a word. -/
def touchesNext? (w : WordPool) (id : UInt64) (i : Nat) : Option Bool :=
  match w[i]? with
  | none => some false
  | some next => do
      let above ← Word.plus? id 1
      return next.first = above

def isFree? (w : WordPool) (id : UInt64) : Option Bool := do
  let i ← w.place? id
  let near ← w.below? id i
  return near = .inside

def size? (w : WordPool) : Option UInt64 := w.foldlM (fun sum r => Word.plus? sum r.count) 0

/-- Shortens a region from below by its first word. -/
def dropFirst? (r : WordRegion) : Option WordRegion := do
  let first ← Word.plus? r.first 1
  let count ← Word.minus? r.count 1
  return ⟨first, count⟩

def takeLeast? : WordPool → Option (UInt64 × WordPool)
  | [] => none
  | r :: rest => do
      let left ← dropFirst? r
      return (r.first, if left.count = 0 then rest else left :: rest)

/-- Takes a chosen word, or says why it cannot be taken. -/
def take? (w : WordPool) (id : UInt64) : Option (Except StoreError WordPool) :=
  if id = 0 then some (.error .nullId)
  else do
    let i ← w.place? id
    if (← w.below? id i) ≠ .inside then return .error (.idInUse ⟨id⟩)
    let r ← w[i - 1]?
    let stop ← r.stop?
    if r.first = id then
      let left ← dropFirst? r
      return .ok (if left.count = 0 then w.eraseIdx (i - 1) else w.set (i - 1) left)
    else
      let last ← Word.minus? stop 1
      if last = id then
        let count ← Word.minus? r.count 1
        return .ok (w.set (i - 1) ⟨r.first, count⟩)
      else
        let lower ← Word.minus? id r.first
        let next ← Word.plus? id 1
        let upper ← Word.minus? stop next
        return .ok ((w.set (i - 1) ⟨next, upper⟩).insertIdx (i - 1) ⟨r.first, lower⟩)

/-- Gives a word back, joining the regions that it touches. -/
def give? (w : WordPool) (id : UInt64) : Option WordPool :=
  if id = 0 ∨ id = Word.largest then some w
  else do
    let i ← w.place? id
    let near ← w.below? id i
    if near = .inside then return w
    let joins ← w.touchesNext? id i
    if near = .touching then
      if joins then
        let next ← w[i]?
        let prev ← (w.eraseIdx i)[i - 1]?
        let more ← Word.plus? 1 next.count
        let count ← Word.plus? prev.count more
        return (w.eraseIdx i).set (i - 1) ⟨prev.first, count⟩
      else
        let prev ← w[i - 1]?
        let count ← Word.plus? prev.count 1
        return w.set (i - 1) ⟨prev.first, count⟩
    else if joins then
      let next ← w[i]?
      let count ← Word.plus? next.count 1
      return w.set i ⟨id, count⟩
    else return w.insertIdx i ⟨id, 1⟩

/-- Where a word lies among regions in order: between those that end below it and those that begin
above it, or near one region, in it or right after it. -/
inductive Located (id : UInt64) : WordPool → Prop where
  | between (front back : WordPool) (hfront : ∀ r ∈ front, r.region.stop < id.toNat)
      (hback : ∀ r ∈ back, id.toNat < r.first.toNat) : Located id (front ++ back)
  | near (front : WordPool) (r : WordRegion) (back : WordPool)
      (hfront : ∀ r ∈ front, r.region.stop < id.toNat) (hfirst : r.first.toNat ≤ id.toNat)
      (hstop : id.toNat ≤ r.region.stop) (hback : ∀ r ∈ back, id.toNat < r.first.toNat) :
      Located id (front ++ r :: back)

variable {w front back : WordPool} {r : WordRegion} {id : UInt64} {low : Nat}

theorem stop_le_limit (h : Apart low w.pool.regions) : ∀ r ∈ w, r.region.stop ≤ Pool.limit := by
  intro r hr
  exact h.stop_le_limit r.region (List.mem_map_of_mem hr)

theorem located (h : Apart low w.pool.regions) (id : UInt64) : Located id w := by
  obtain ⟨front', back', hsplit, hfront', hback'⟩ := h.exists_split id.toNat
  obtain ⟨front, back, rfl, rfl, rfl⟩ := List.map_eq_append_iff.mp hsplit
  have hfront : ∀ r ∈ front, r.region.stop < id.toNat := fun r hr =>
    hfront' r.region (List.mem_map_of_mem hr)
  have hpairs := h.pairwise
  rw [hsplit] at hpairs
  replace hpairs := (List.pairwise_append.mp hpairs).2.1
  cases back with
  | nil => exact .between front [] hfront (by simp)
  | cons r rest =>
      have hle : id.toNat ≤ r.region.stop := hback' r.region (by simp)
      have hrest : ∀ s ∈ rest, r.region.stop < s.first.toNat := fun s hs =>
        (List.pairwise_cons.mp hpairs).1 s.region (List.mem_map_of_mem hs)
      by_cases hfirst : r.first.toNat ≤ id.toNat
      · exact .near front r rest hfront hfirst hle fun s hs => hle.trans_lt (hrest s hs)
      · refine .between front (r :: rest) hfront (List.forall_mem_cons.mpr ⟨by omega, ?_⟩)
        exact fun s hs => hle.trans_lt (hrest s hs)

theorem place?_append (hfront : ∀ r ∈ front, r.first.toNat ≤ id.toNat)
    (hback : ∀ r ∈ back, id.toNat < r.first.toNat) :
    place? (front ++ back) id = some front.length := by
  have hstop : (back.takeWhile (·.first ≤ id)) = [] := by
    cases back with
    | nil => rfl
    | cons r rest =>
        apply List.takeWhile_cons_of_neg
        simpa [UInt64.le_iff_toNat_le] using hback r (by simp)
  have hplace : (front ++ back).takeWhile (·.first ≤ id) = front := by
    rw [List.takeWhile_append_of_pos, hstop, List.append_nil]
    intro r hr
    simpa [UInt64.le_iff_toNat_le] using hfront r hr
  rw [place?, hplace, List.drop_left, if_pos]
  simpa [UInt64.lt_iff_toNat_lt] using hback

theorem below?_succ {i : Nat} (hr : w[i]? = some r) (hstop : r.region.stop ≤ Pool.limit) :
    w.below? id (i + 1) =
      some (if id.toNat < r.region.stop then .inside
        else if r.region.stop = id.toNat then .touching else .apart) := by
  obtain ⟨stop, hstop?, hvalue⟩ := WordRegion.exists_stop? hstop
  simp [below?, hr, hstop?, ← hvalue, UInt64.lt_iff_toNat_lt, UInt64.toNat_inj]

theorem below?_between (hfront : ∀ r ∈ front, r.region.stop < id.toNat) :
    below? (front ++ back) id front.length = some .apart := by
  rcases List.eq_nil_or_concat front with rfl | ⟨init, prev, rfl⟩
  · rfl
  · have hprev : prev.region.stop < id.toNat := hfront prev (by simp)
    have hlimit : prev.region.stop ≤ Pool.limit := hprev.le.trans (Word.toNat_le_limit id)
    rw [List.length_concat, below?_succ (r := prev) (by simp) hlimit, if_neg (by omega),
      if_neg (by omega)]

theorem below?_near (hstop : r.region.stop ≤ Pool.limit) (hid : id.toNat ≤ r.region.stop) :
    below? (front ++ r :: back) id (front.length + 1) =
      some (if id.toNat < r.region.stop then .inside else .touching) := by
  rw [below?_succ (r := r) (by simp) hstop]
  by_cases hlt : id.toNat < r.region.stop
  · rw [if_pos hlt, if_pos hlt]
  · rw [if_neg hlt, if_neg hlt, if_pos (by omega)]

theorem touchesNext?_append (hid : id.toNat < Pool.limit) :
    touchesNext? (front ++ back) id front.length =
      some (back.head?.any fun next => id.toNat + 1 = next.first.toNat) := by
  cases back with
  | nil => simp [touchesNext?]
  | cons next rest =>
      obtain ⟨above, habove, hvalue⟩ := Word.exists_succ? hid
      have hsame : next.first = above ↔ id.toNat + 1 = next.first.toNat := by
        rw [← UInt64.toNat_inj, hvalue, eq_comm]
      simp [touchesNext?, habove, hsame]

theorem place?_between (hfront : ∀ r ∈ front, r.region.stop < id.toNat)
    (hback : ∀ r ∈ back, id.toNat < r.first.toNat) :
    place? (front ++ back) id = some front.length :=
  place?_append (fun r hr => r.first_le_stop.trans (hfront r hr).le) hback

theorem place?_near (hfront : ∀ r ∈ front, r.region.stop < id.toNat)
    (hfirst : r.first.toNat ≤ id.toNat) (hback : ∀ r ∈ back, id.toNat < r.first.toNat) :
    place? (front ++ r :: back) id = some (front.length + 1) := by
  have hplace : place? ((front ++ [r]) ++ back) id = some (front ++ [r]).length := by
    refine place?_append ?_ hback
    intro s hs
    rcases List.mem_append.mp hs with hs | hs
    · exact s.first_le_stop.trans (hfront s hs).le
    · rwa [List.mem_singleton.mp hs]
  simpa using hplace

theorem forall_region {P : Region → Prop} (h : ∀ r ∈ w, P r.region) :
    ∀ r ∈ w.map WordRegion.region, P r := by
  intro r hr
  obtain ⟨s, hs, rfl⟩ := List.mem_map.mp hr
  exact h s hs

theorem isFree?_eq (h : Apart low w.pool.regions) (id : UInt64) :
    w.isFree? id = some (w.pool.isFree id.toNat) := by
  have hlimit := stop_le_limit h
  cases located h id with
  | between front back hfront hback =>
      have hmodel : (pool (front ++ back)).isFree id.toNat = false := by
        rw [Pool.isFree, pool, List.map_append, Pool.isFreeIn_append (forall_region hfront)]
        exact Pool.isFreeIn_of_lt (forall_region hback)
      simp [isFree?, place?_between hfront hback, below?_between hfront, hmodel]
  | near front r back hfront hfirst hstop hback =>
      have hmodel : (pool (front ++ r :: back)).isFree id.toNat =
          decide (id.toNat < r.region.stop) := by
        rw [Pool.isFree, pool, List.map_append, Pool.isFreeIn_append (forall_region hfront),
          List.map_cons, Pool.isFreeIn, if_neg (by exact Nat.not_lt.mpr hfirst)]
        split
        · rename_i hlt
          exact (decide_eq_true hlt).symm
        · rename_i hlt
          rw [decide_eq_false hlt]
          exact Pool.isFreeIn_of_lt (forall_region hback)
      have hr : r.region.stop ≤ Pool.limit := hlimit r (by simp)
      rw [isFree?, place?_near hfront hfirst hback]
      simp only [Option.bind_eq_bind, Option.bind_some, below?_near hr hstop, hmodel]
      by_cases hlt : id.toNat < r.region.stop <;> simp [hlt]

theorem insertIdx_length (front back : WordPool) (r : WordRegion) :
    (front ++ back).insertIdx front.length r = front ++ r :: back := by
  induction front with
  | nil => rfl
  | cons s front ih => exact congrArg (s :: ·) ih

theorem eraseIdx_length_succ (front back : WordPool) (r s : WordRegion) :
    (front ++ r :: s :: back).eraseIdx (front.length + 1) = front ++ r :: back := by
  rw [List.eraseIdx_append_of_length_le (Nat.le_add_right _ 1), Nat.add_sub_cancel_left]
  rfl

theorem give?_between (hid : id ≠ 0) (hlimit : id.toNat < Pool.limit)
    (hfront : ∀ r ∈ front, r.region.stop < id.toNat)
    (hback : ∀ r ∈ back, id.toNat < r.first.toNat)
    (hstop : ∀ r ∈ back, r.region.stop ≤ Pool.limit) :
    ∃ w, give? (front ++ back) id = some w ∧
      w.map WordRegion.region =
        front.map WordRegion.region ++
          Pool.joinFront ⟨id.toNat, 1⟩ (back.map WordRegion.region) := by
  rw [give?, if_neg (not_or.mpr ⟨hid, Word.ne_largest hlimit⟩)]
  simp only [Option.bind_eq_bind, Option.bind_some, place?_between hfront hback,
    below?_between hfront, touchesNext?_append hlimit]
  cases back with
  | nil => exact ⟨front ++ [⟨id, 1⟩], by simp, by simp [Pool.joinFront, WordRegion.region]⟩
  | cons next rest =>
      have hnext : next.first.toNat + next.count.toNat ≤ Pool.limit := hstop next (by simp)
      by_cases htouch : id.toNat + 1 = next.first.toNat
      · obtain ⟨count, hcount, hvalue⟩ := Word.exists_succ? (a := next.count) (by omega)
        refine ⟨front ++ ⟨id, count⟩ :: rest, by simp [htouch, hcount], ?_⟩
        have hjoin : (Region.mk id.toNat 1).stop = next.region.first := htouch
        rw [List.map_append, List.map_cons, List.map_cons, Pool.joinFront, if_pos hjoin]
        simp [WordRegion.region, hvalue, Nat.add_comm]
      · refine ⟨front ++ ⟨id, 1⟩ :: next :: rest, by simp [htouch, insertIdx_length], ?_⟩
        have hjoin : (Region.mk id.toNat 1).stop ≠ next.region.first := htouch
        rw [List.map_append, List.map_cons, List.map_cons, Pool.joinFront, if_neg hjoin]
        rfl

theorem give?_touching (hid : id ≠ 0) (hlimit : id.toNat < Pool.limit)
    (hfront : ∀ r ∈ front, r.region.stop < id.toNat) (hr : r.region.stop = id.toNat)
    (hback : ∀ r ∈ back, id.toNat < r.first.toNat)
    (hstop : ∀ r ∈ back, r.region.stop ≤ Pool.limit) :
    ∃ w, give? (front ++ r :: back) id = some w ∧
      w.map WordRegion.region = front.map WordRegion.region ++
        Pool.joinFront ⟨r.first.toNat, r.count.toNat + 1⟩ (back.map WordRegion.region) := by
  have hfirst : r.first.toNat ≤ id.toNat := hr ▸ r.first_le_stop
  have hnext : touchesNext? (front ++ r :: back) id (front.length + 1) =
      some (back.head?.any fun next => id.toNat + 1 = next.first.toNat) := by
    have happend := @touchesNext?_append (front ++ [r]) back id hlimit
    rwa [List.append_assoc, List.length_append] at happend
  have hsum : r.first.toNat + r.count.toNat = id.toNat := hr
  rw [give?, if_neg (not_or.mpr ⟨hid, Word.ne_largest hlimit⟩)]
  simp only [Option.bind_eq_bind, Option.bind_some, place?_near hfront hfirst hback,
    below?_near (hr ▸ hlimit.le) hr.ge, hr, lt_irrefl, if_false, hnext]
  obtain ⟨longer, hlonger, hvalue⟩ := Word.exists_succ? (a := r.count) (by omega)
  cases back with
  | nil =>
      refine ⟨front ++ [⟨r.first, longer⟩], by simp [hlonger], ?_⟩
      simp [Pool.joinFront, WordRegion.region, hvalue]
  | cons next rest =>
      have hnext : next.first.toNat + next.count.toNat ≤ Pool.limit := hstop next (by simp)
      have hstop : (Region.mk r.first.toNat (r.count.toNat + 1)).stop = id.toNat + 1 := by
        rw [Region.stop, ← hsum, Nat.add_assoc]
      by_cases htouch : id.toNat + 1 = next.first.toNat
      · obtain ⟨more, hmore, hmoreValue⟩ : ∃ c, Word.plus? 1 next.count = some c ∧
            c.toNat = 1 + next.count.toNat :=
          Word.exists_plus? (by rw [UInt64.toNat_one]; omega)
        obtain ⟨count, hcount, hcountValue⟩ :=
          Word.exists_plus? (a := r.count) (b := more) (by omega)
        refine ⟨front ++ ⟨r.first, count⟩ :: rest, ?_, ?_⟩
        · simp [htouch, hmore, hcount, eraseIdx_length_succ]
        · have hjoin : (Region.mk r.first.toNat (r.count.toNat + 1)).stop = next.region.first :=
            hstop.trans htouch
          rw [List.map_append, List.map_cons, List.map_cons, Pool.joinFront, if_pos hjoin]
          simp [WordRegion.region, hcountValue, hmoreValue, Nat.add_assoc]
      · refine ⟨front ++ ⟨r.first, longer⟩ :: next :: rest, by simp [htouch, hlonger], ?_⟩
        have hjoin : (Region.mk r.first.toNat (r.count.toNat + 1)).stop ≠ next.region.first :=
          fun h => htouch (hstop.symm.trans h)
        rw [List.map_append, List.map_cons, List.map_cons, Pool.joinFront, if_neg hjoin]
        simp [WordRegion.region, hvalue]

theorem exists_give? (h : Apart low w.pool.regions) (id : UInt64) :
    ∃ w', w.give? id = some w' ∧ w'.pool = w.pool.give id.toNat := by
  by_cases hguard : id = 0 ∨ id = Word.largest
  · refine ⟨w, if_pos hguard, ?_⟩
    rw [Pool.give, if_pos]
    rcases hguard with rfl | rfl
    · exact .inl rfl
    · exact .inr le_rfl
  · obtain ⟨hzero, hlargest⟩ := not_or.mp hguard
    have hlimit : id.toNat < Pool.limit :=
      lt_of_le_of_ne (Word.toNat_le_limit id) fun h => hlargest (UInt64.toNat_inj.mp h)
    have hgive : w.pool.give id.toNat = ⟨Pool.giveIn id.toNat w.pool.regions⟩ := by
      rw [Pool.give, if_neg]
      rintro (h | h)
      · exact hzero (UInt64.toNat_inj.mp h)
      · exact absurd hlimit (Nat.not_lt.mpr h)
    have hstop := stop_le_limit h
    rw [hgive]
    cases located h id with
    | between front back hfront hback =>
        obtain ⟨w', hw', hregions⟩ := give?_between hzero hlimit hfront hback fun r hr =>
          hstop r (List.mem_append_right front hr)
        refine ⟨w', hw', ?_⟩
        rw [pool, pool, hregions, List.map_append, Pool.giveIn_append (forall_region hfront),
          Pool.giveIn_of_lt (forall_region hback)]
    | near front r back hfront hfirst hend hback =>
        rw [pool, List.map_append, Pool.giveIn_append (forall_region hfront), List.map_cons,
          Pool.giveIn, if_neg (by exact Nat.not_lt.mpr hfirst)]
        by_cases hlt : id.toNat < r.region.stop
        · refine ⟨front ++ r :: back, ?_, by rw [if_pos hlt, pool, List.map_append, List.map_cons]⟩
          rw [give?, if_neg hguard]
          simp [place?_near hfront hfirst hback, below?_near (hstop r (by simp)) hend, hlt]
        · have hr : r.region.stop = id.toNat := by omega
          obtain ⟨w', hw', hregions⟩ := give?_touching hzero hlimit hfront hr hback fun s hs =>
            hstop s (List.mem_append_right front (List.mem_cons_of_mem r hs))
          refine ⟨w', hw', ?_⟩
          rw [if_neg hlt, if_pos hr.symm, pool, hregions]
          rfl

theorem exists_dropFirst? (hcount : 0 < r.count.toNat) (hstop : r.region.stop ≤ Pool.limit) :
    ∃ left, dropFirst? r = some left ∧
      left.region = ⟨r.first.toNat + 1, r.count.toNat - 1⟩ := by
  have hsum : r.first.toNat + r.count.toNat ≤ Pool.limit := hstop
  obtain ⟨first, hfirst, hfirstValue⟩ := Word.exists_succ? (a := r.first) (by omega)
  obtain ⟨count, hcount, hcountValue⟩ := Word.exists_pred? hcount
  refine ⟨⟨first, count⟩, by simp [dropFirst?, hfirst, hcount], ?_⟩
  rw [WordRegion.region, hfirstValue, hcountValue]

theorem without_first {left : WordRegion} (hcount : 0 < r.count.toNat)
    (hleft : left.region = ⟨r.first.toNat + 1, r.count.toNat - 1⟩) :
    r.region.without r.first.toNat = if left.count = 0 then [] else [left.region] := by
  have hvalue : left.count.toNat = r.count.toNat - 1 := congrArg Region.count hleft
  have hzero : left.count = 0 ↔ r.count.toNat = 1 := by
    rw [← UInt64.toNat_inj, hvalue]
    change r.count.toNat - 1 = 0 ↔ _
    omega
  have hstop : r.region.stop = r.first.toNat + r.count.toNat := rfl
  have hfirst : r.region.first = r.first.toNat := rfl
  rw [Region.without, hfirst, if_neg (lt_irrefl _), List.nil_append, hstop, hleft]
  by_cases hone : r.count.toNat = 1
  · rw [if_pos (hzero.mpr hone), if_neg (by omega)]
  · rw [if_neg (mt hzero.mp hone), if_pos (by omega), Nat.add_sub_add_left]

theorem exists_takeLeast? (h : Apart low w.pool.regions) {n : Nat} {p : Pool}
    (htake : w.pool.takeLeast? = some (n, p)) :
    ∃ id w', w.takeLeast? = some (id, w') ∧ id.toNat = n ∧ w'.pool = p := by
  cases w with
  | nil => simp [pool, Pool.takeLeast?] at htake
  | cons r rest =>
      have hcount : 0 < r.count.toNat := h.count_pos r.region (by simp [pool])
      obtain ⟨left, hdrop, hleft⟩ :=
        exists_dropFirst? hcount (h.stop_le_limit r.region (by simp [pool]))
      simp only [pool, Pool.takeLeast?, List.map_cons, Option.some.injEq, Prod.mk.injEq] at htake
      obtain ⟨rfl, rfl⟩ := htake
      refine ⟨r.first, if left.count = 0 then rest else left :: rest, by simp [takeLeast?, hdrop],
        rfl, ?_⟩
      have hwithout : r.region.without r.region.first =
          if left.count = 0 then [] else [left.region] := without_first hcount hleft
      rw [pool, hwithout]
      split <;> rfl

theorem take?_near (hid : id ≠ 0) (hfront : ∀ r ∈ front, r.region.stop < id.toNat)
    (hfirst : r.first.toNat ≤ id.toNat) (hlast : id.toNat < r.region.stop)
    (hback : ∀ r ∈ back, id.toNat < r.first.toNat) (hstop : r.region.stop ≤ Pool.limit) :
    ∃ w, take? (front ++ r :: back) id = some (.ok w) ∧
      w.map WordRegion.region = front.map WordRegion.region ++
        (r.region.without id.toNat ++ back.map WordRegion.region) := by
  have hsum : r.first.toNat + r.count.toNat ≤ Pool.limit := hstop
  have hlast' : id.toNat < r.first.toNat + r.count.toNat := hlast
  obtain ⟨stop, hstop?, hstopValue⟩ := WordRegion.exists_stop? hstop
  rw [take?, if_neg hid]
  simp only [Option.bind_eq_bind, Option.bind_some, place?_near hfront hfirst hback,
    below?_near hstop hlast.le, hlast, if_true, ne_eq, not_true, if_false]
  by_cases hsame : r.first = id
  · subst hsame
    have hcount : 0 < r.count.toNat := by omega
    obtain ⟨left, hdrop, hleft⟩ := exists_dropFirst? hcount hstop
    rw [without_first hcount hleft]
    refine ⟨front ++ if left.count = 0 then back else left :: back, ?_, ?_⟩
    · by_cases hzero : left.count = 0 <;>
        simp [hstop?, hdrop, hzero, List.eraseIdx_append_of_length_le]
    · split <;> simp
  · have hbelow : r.first.toNat < id.toNat :=
      lt_of_le_of_ne hfirst fun h => hsame (UInt64.toNat_inj.mp h)
    obtain ⟨last, hlast?, hlastValue⟩ := Word.exists_pred? (a := stop) (by omega)
    have hend : r.region.stop = r.first.toNat + r.count.toNat := rfl
    rw [Region.without, if_pos (by exact hbelow), hend]
    by_cases hfinal : last = id
    · have hcountValue : id.toNat = r.first.toNat + r.count.toNat - 1 := by
        rw [← hfinal, hlastValue, hstopValue, hend]
      obtain ⟨count, hcount, hvalue⟩ := Word.exists_pred? (a := r.count) (by omega)
      refine ⟨front ++ ⟨r.first, count⟩ :: back, ?_, ?_⟩
      · simp [hstop?, hsame, hlast?, hfinal, hcount]
      · have hlower : count.toNat = id.toNat - r.first.toNat := by omega
        rw [if_neg (by omega)]
        simp [WordRegion.region, hlower]
    · have habove : id.toNat + 1 < r.first.toNat + r.count.toNat := by
        have hne : last.toNat ≠ id.toNat := fun h => hfinal (UInt64.toNat_inj.mp h)
        omega
      obtain ⟨lower, hlower, hlowerValue⟩ := Word.exists_minus? hfirst
      obtain ⟨next, hnext, hnextValue⟩ := Word.exists_succ? (a := id) (by omega)
      obtain ⟨upper, hupper, hupperValue⟩ := Word.exists_minus? (a := stop) (b := next) (by omega)
      refine ⟨front ++ ⟨r.first, lower⟩ :: ⟨next, upper⟩ :: back, ?_, ?_⟩
      · simp [hstop?, hsame, hlast?, hfinal, hlower, hnext, hupper, insertIdx_length]
      · rw [if_pos habove]
        simp [WordRegion.region, hlowerValue, hnextValue, hupperValue, hstopValue, Region.stop]

theorem exists_take? (h : Apart low w.pool.regions) (hid : id ≠ 0) :
    ∃ result, w.take? id = some result ∧
      result.map pool =
        match w.pool.take? id.toNat with
        | none => .error (.idInUse ⟨id⟩)
        | some p => .ok p := by
  have hstop := stop_le_limit h
  cases located h id with
  | between front back hfront hback =>
      refine ⟨.error (.idInUse ⟨id⟩), ?_, ?_⟩
      · simp [take?, hid, place?_between hfront hback, below?_between hfront]
      · rw [Pool.take?, pool, List.map_append, Pool.takeIn?_append (forall_region hfront),
          Pool.takeIn?_of_lt (forall_region hback)]
        rfl
  | near front r back hfront hfirst hend hback =>
      have hr : r.region.stop ≤ Pool.limit := hstop r (by simp)
      rw [Pool.take?, pool, List.map_append, Pool.takeIn?_append (forall_region hfront),
        List.map_cons, Pool.takeIn?, if_neg (by exact Nat.not_lt.mpr hfirst)]
      by_cases hlt : id.toNat < r.region.stop
      · obtain ⟨w', hw', hregions⟩ := take?_near hid hfront hfirst hlt hback hr
        refine ⟨.ok w', hw', ?_⟩
        rw [if_pos hlt]
        exact congrArg (fun l => Except.ok (Pool.mk l)) hregions
      · refine ⟨.error (.idInUse ⟨id⟩), ?_, ?_⟩
        · simp [take?, hid, place?_near hfront hfirst hback, below?_near hr hend, hlt]
        · rw [if_neg hlt, Pool.takeIn?_of_lt (forall_region hback)]
          rfl

theorem exists_sum? (w : WordPool) (sum : UInt64) (hsum : sum.toNat + w.pool.size ≤ Pool.limit) :
    ∃ size, w.foldlM (fun sum r => Word.plus? sum r.count) sum = some size ∧
      size.toNat = sum.toNat + w.pool.size := by
  induction w generalizing sum with
  | nil => exact ⟨sum, rfl, rfl⟩
  | cons r rest ih =>
      have hcons : (pool (r :: rest)).size = r.count.toNat + (pool rest).size := rfl
      obtain ⟨more, hmore, hvalue⟩ := Word.exists_plus? (a := sum) (b := r.count) (by omega)
      obtain ⟨size, hsize, hsizeValue⟩ := ih more (by omega)
      refine ⟨size, by simp [hmore, hsize], ?_⟩
      rw [hsizeValue, hvalue, hcons, Nat.add_assoc]

theorem exists_size? (h : Apart low w.pool.regions) :
    ∃ size, w.size? = some size ∧ size.toNat = w.pool.size := by
  have hle : w.pool.size ≤ Pool.limit - low := h.size_le
  obtain ⟨size, hsize, hvalue⟩ := exists_sum? w 0 (by rw [UInt64.toNat_zero]; omega)
  refine ⟨size, hsize, ?_⟩
  rw [hvalue, UInt64.toNat_zero, Nat.zero_add]

theorem eq_of_pool {w w' : WordPool} (h : w.pool = w'.pool) : w = w' := by
  have hregion : Function.Injective WordRegion.region := by
    intro r s hrs
    obtain ⟨first, count⟩ := r
    obtain ⟨first', count'⟩ := s
    obtain ⟨hfirst, hcount⟩ := Region.mk.inj hrs
    obtain rfl := UInt64.toNat_inj.mp hfirst
    obtain rfl := UInt64.toNat_inj.mp hcount
    rfl
  exact List.map_injective_iff.mpr hregion (Pool.mk.inj h)

end WordPool

end Terrarium
