import Terrarium.Proofs.PoolStretches
import Terrarium.Proofs.SourceOrder

namespace Terrarium.Table

variable {α : Type} [Identified α] {t : Table α} {w : WordPool} {id : ObjectId}

theorem exists_made_killed (h : t.Tidy) (make : ObjectId → α)
    (hfree : id.word ∈ t.free) (hnone : t.get? id = none) :
    ∃ t', t.createAt id make = .ok (id, t') ∧ (t'.kill id).1 = true ∧
      (t'.kill id).2.pool = t.pool ∧ (t'.kill id).2.size = t.size ∧
      ∀ i, (t'.kill id).2.get? i = t.get? i := by
  have hrange : Pool.InRange id.word.toNat := h.apart.le_of_holds hfree
  have hnull := not_isNull_of_inRange hrange
  obtain ⟨t', hmade, hleft⟩ := (servesSet_free h.apart).taken id make hnull hfree
  have htidy : t'.Tidy := h.createAt hmade
  obtain ⟨left, hput, -⟩ := h.exists_made hmade
  have hget (i : ObjectId) : t'.get? i = if i = id then some (make id) else t.get? i := by
    rw [hput]
    exact get?_put _ id i (make id)
  have hlive : (t'.get? id).isSome := by
    rw [hget, if_pos rfl]
    rfl
  have hcount : t'.live = t.live + 1 := by
    rw [hput]
    change (if (t.get? id).isSome then t.live else t.live + 1) = t.live + 1
    rw [hnone]
    rfl
  -- The regions are the old ones, since they stand for the old set again.
  refine ⟨t', hmade, ?_, pool_eq_of_free (htidy.kill id).apart h.apart ?_, ?_, ?_⟩
  · rw [kill, if_pos hlive]
  · calc (t'.kill id).2.free = (t'.giveId id).free := by
          rw [kill, if_pos hlive]
          rfl
      _ = insert id.word t'.free := free_giveId hrange
      _ = t.free := by rw [hleft, Set.insert_sdiff_self_of_mem hfree]
  · rw [kill, if_pos hlive]
    change t'.live - 1 = t.live
    rw [hcount, Nat.add_sub_cancel]
  · intro i
    rw [get?_kill htidy.descending, hget]
    split
    · rename_i hi
      rw [hi, hnone]
    · rfl

theorem exists_given_made (h : t.Tidy) (make : ObjectId → α)
    (hrange : Pool.InRange id.word.toNat) (hused : id.word ∉ t.free) :
    ∃ t', (t.giveId id).createAt id make = .ok (id, t') ∧ t'.pool = t.pool := by
  have hgiven : (t.giveId id).Tidy := h.withPool (h.give id)
  have hfree : (t.giveId id).free = insert id.word t.free := free_giveId hrange
  obtain ⟨t', hmade, hleft⟩ := (servesSet_free hgiven.apart).taken id make
    (not_isNull_of_inRange hrange) (hfree ▸ Set.mem_insert _ _)
  refine ⟨t', hmade, pool_eq_of_free (hgiven.createAt hmade).apart h.apart ?_⟩
  rw [hleft, hfree, Set.insert_sdiff_self_of_notMem hused]

theorem exists_taken_given (h : t.Tidy) (hfree : t.free.Nonempty) :
    ∃ id t', t.takeId? = some (id, t') ∧ t'.giveId id = t := by
  obtain ⟨id, t', htake, ⟨hmem, -⟩, hleft⟩ := (servesSet_free h.apart).least hfree
  have hrange : Pool.InRange id.word.toNat := h.apart.le_of_holds hmem
  obtain ⟨left, htaken, rfl⟩ := takeId?_eq_some h.apart htake
  have htidy : { t with pool := ⟨left⟩ }.Tidy :=
    h.withPool (Pool.takeIn?_eq_some h.apart htaken).2.1
  refine ⟨id, _, htake, ?_⟩
  have hpool : ({ t with pool := ⟨left⟩ }.giveId id).pool = t.pool := by
    refine pool_eq_of_free (htidy.give id) h.apart ?_
    rw [free_giveId hrange, hleft, Set.insert_sdiff_self_of_mem hmem]
  exact congrArg (fun p => { t with pool := p }) hpool

/-- Calls that come to their end with the regions there were before, in numbers and in words. -/
structure Restores (s : Table α × WordPool) (calls : List (Call α)) (t' : Table α) : Prop where
  regions : t'.pool.regions = s.1.pool.regions
  words : calls.foldlM callWords? s = some (t', s.2)

theorem restores {t' : Table α} {calls : List (Call α)} (hw : w.pool = t.pool) (h : t.Tidy)
    (hcalls : t.callAll? calls = some t') (hpool : t'.pool = t.pool) :
    Restores (t, w) calls t' := by
  have hstill : t.callAll? [] = some t := rfl
  obtain ⟨-, w', hrun, hnone⟩ := endAlike hw h.apart hcalls hstill hpool
  obtain rfl : w = w' := congrArg Prod.snd (Option.some.inj hnone)
  exact ⟨congrArg Pool.regions hpool, hrun⟩

/-- A table that is as it was when what was taken is given back, or the other way round. -/
structure Reversible (t : Table α) (w : WordPool) : Prop where
  /-- An object that is made and killed under an unused identifier without an object. -/
  made : ∀ id make, t.isFree id = true → t.get? id = none →
    ∃ t', t.createAt id make = .ok (id, t') ∧ (t'.kill id).1 = true ∧
      Restores (t, w) [.createAt id make, .kill id] (t'.kill id).2 ∧
      (t'.kill id).2.size = t.size ∧ ∀ i, (t'.kill id).2.get? i = t.get? i
  /-- An identifier in use that is given back and chosen again. -/
  given : ∀ id make, 1 ≤ id.word → id.word ≤ Word.largest - 1 → t.isFree id = false →
    ∃ t', (t.giveId id).createAt id make = .ok (id, t') ∧
      Restores (t, w) [.giveId id, .createAt id make] t'
  /-- The least unused identifier, taken and given back. -/
  taken : t.free.Nonempty → ∃ id t', t.takeId? = some (id, t') ∧ t'.giveId id = t ∧
    Restores (t, w) [.takeId, .giveId id] t

/-- In every table that calls lead to from a new one, taking and giving back undo each other. -/
theorem callAll?_reversible {calls : List (Call α)} (h : empty.callAll? calls = some t) :
    ∃ w, calls.foldlM callWords? (empty, WordPool.all) = some (t, w) ∧ t.Reversible w := by
  have htidy : t.Tidy := tidy_callAll? h
  obtain ⟨w, hw, hpool⟩ := exists_callAllWords? (w := WordPool.all) rfl apart_all h
  refine ⟨w, hw, ?_, ?_, ?_⟩
  · intro id make hfree hnone
    obtain ⟨t', hmade, hkilled, hsame, hsize, hget⟩ :=
      exists_made_killed htidy make ((Pool.isFreeIn_iff htidy.apart).mp hfree) hnone
    have hcalls : t.callAll? [.createAt id make, .kill id] = some (t'.kill id).2 := by
      simp [callAll?, call?, hmade]
    exact ⟨t', hmade, hkilled, restores hpool htidy hcalls hsame, hsize, hget⟩
  · intro id make hfirst hlast hused
    have hheld : id.word ∉ t.free := fun hheld =>
      Bool.eq_false_iff.mp hused ((Pool.isFreeIn_iff htidy.apart).mpr hheld)
    have hrange := inRange_word hfirst (UInt64.lt_of_le_of_lt hlast (by decide))
    obtain ⟨t', hmade, hsame⟩ := exists_given_made htidy make hrange hheld
    have hcalls : t.callAll? [.giveId id, .createAt id make] = some t' := by
      simp [callAll?, call?, hmade]
    exact ⟨t', hmade, restores hpool htidy hcalls hsame⟩
  · intro hfree
    obtain ⟨id, t', htake, hgive⟩ := exists_taken_given htidy hfree
    have hcalls : t.callAll? [.takeId, .giveId id] = some t := by
      simp [callAll?, call?, htake, hgive]
    exact ⟨id, t', htake, hgive, restores hpool htidy hcalls rfl⟩

theorem callAll?_reversible_inside :
    let calls : List (Call Entity) := [.createAt ⟨10⟩ .marker, .createAt ⟨5⟩ .marker, .takeId]
    ∃ t, empty.callAll? calls = some t ∧
      t.pool.regions = [⟨2, 3⟩, ⟨6, 4⟩, ⟨11, UInt64.size - 12⟩] ∧
      t.isFree ⟨8⟩ = true ∧ t.get? ⟨8⟩ = none ∧ t.isFree ⟨5⟩ = false ∧
      (∃ t', t.createAt ⟨8⟩ .marker = .ok (⟨8⟩, t') ∧
        (t'.kill ⟨8⟩).2.pool.regions = t.pool.regions) ∧
      ∃ t', (t.giveId ⟨5⟩).createAt ⟨5⟩ .marker = .ok (⟨5⟩, t') ∧
        t'.pool.regions = t.pool.regions := by
  intro calls
  have hrun : (empty.callAll? calls).map
      (fun t => (t.pool.regions, t.isFree ⟨8⟩, t.get? ⟨8⟩, t.isFree ⟨5⟩)) =
      some ([⟨2, 3⟩, ⟨6, 4⟩, ⟨11, UInt64.size - 12⟩], true, none, false) := by decide
  obtain ⟨t, hcalls, ht⟩ := Option.map_eq_some_iff.mp hrun
  simp only [Prod.mk.injEq] at ht
  obtain ⟨hregions, hfree, hnone, hused⟩ := ht
  obtain ⟨w, -, hreversible⟩ := callAll?_reversible hcalls
  obtain ⟨t₁, hmade, -, hkilled, -⟩ := hreversible.made ⟨8⟩ .marker hfree hnone
  obtain ⟨t₂, hgiven, hagain⟩ := hreversible.given ⟨5⟩ .marker (by decide) (by decide) hused
  exact ⟨t, hcalls, hregions, hfree, hnone, hused, ⟨t₁, hmade, hkilled.regions⟩,
    t₂, hgiven, hagain.regions⟩

end Terrarium.Table
