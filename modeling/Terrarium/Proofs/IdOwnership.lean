import Terrarium.Proofs.SourceOrder
import Terrarium.Proofs.TableRuns

/-!
Who has an identifier. As long as only identifiers that were taken are used to store under, and only
those without an object are given back, each identifier that can be handed out is unused, or names
an object, or was handed out and is still to be used: it is always in exactly one of these states.
-/
namespace Terrarium.Table

variable {α : Type} [Identified α] {t t' : Table α} {c : Call α} {calls : List (Call α)}
  {id : ObjectId}

/-- Whether a call keeps to the rules: nothing is stored under an unused identifier, and none is
given back that names an object. -/
def Permits (t : Table α) : Call α → Prop
  | .store a => t.isFree (Identified.ident a) = false
  | .giveId id => (t.get? id).isNone
  | _ => True

/-- Whether calls in turn keep to the rules, as far as they go through. -/
def PermitsAll (t : Table α) : List (Call α) → Prop
  | [] => True
  | c :: rest => t.Permits c ∧ ∀ t' ∈ t.call? c, t'.PermitsAll rest

instance (t : Table α) (c : Call α) : Decidable (t.Permits c) :=
  match c with
  | .store a => inferInstanceAs (Decidable (t.isFree (Identified.ident a) = false))
  | .giveId id => inferInstanceAs (Decidable ((t.get? id).isNone = true))
  | .takeId | .create _ | .createAt _ _ | .update _ _ | .kill _ => .isTrue trivial

instance decidablePermitsAll (t : Table α) (calls : List (Call α)) :
    Decidable (t.PermitsAll calls) :=
  match calls with
  | [] => .isTrue trivial
  | c :: rest =>
      have (t' : Table α) : Decidable (t'.PermitsAll rest) := decidablePermitsAll t' rest
      inferInstanceAs (Decidable (t.Permits c ∧ ∀ t' ∈ t.call? c, t'.PermitsAll rest))

/-- Whether a call uses up an identifier that was handed out: it gives it back, or stores an object
under it. -/
def Call.Settles (id : ObjectId) : Call α → Prop
  | .giveId i => i = id
  | .store a => Identified.ident a = id
  | _ => False

/-- Whether an identifier was handed out by one of the calls on a new table and by none after it
used up. -/
def Outstanding (calls : List (Call α)) (id : ObjectId) : Prop :=
  ∃ (before after : List (Call α)) (t t' : Table α), calls = before ++ .takeId :: after ∧
    empty.callAll? before = some t ∧ t.takeId? = some (id, t') ∧ ∀ c ∈ after, ¬ c.Settles id

/-- Who has an identifier: nobody yet, an object, or the caller it was handed out to. -/
inductive Standing where
  | free
  | live
  | outstanding

/-- Whether an identifier is in a state after calls that lead to a table. -/
def Stands (t : Table α) (calls : List (Call α)) (id : ObjectId) : Standing → Prop
  | .free => t.isFree id = true
  | .live => (t.get? id).isSome
  | .outstanding => Outstanding calls id

theorem permitsAll_concat :
    t.PermitsAll (calls ++ [c]) ↔
      t.PermitsAll calls ∧ ∀ t' ∈ t.callAll? calls, t'.Permits c := by
  induction calls generalizing t with
  | nil => simp [PermitsAll, callAll?]
  | cons first calls ih =>
      have hrest : t.callAll? (first :: calls) = (t.call? first).bind (·.callAll? calls) := rfl
      simp only [List.cons_append, PermitsAll, ih, hrest, Option.mem_bind_iff, and_assoc]
      constructor
      · rintro ⟨hfirst, hothers⟩
        refine ⟨hfirst, fun t' ht' => (hothers t' ht').1, ?_⟩
        rintro t' ⟨next, hnext, ht'⟩
        exact (hothers next hnext).2 t' ht'
      · rintro ⟨hfirst, hothers, hlast⟩
        exact ⟨hfirst, fun next hnext => ⟨hothers next hnext, fun t' ht' =>
          hlast t' ⟨next, hnext, ht'⟩⟩⟩

/-- One more call: it hands out its identifier, or leaves outstanding what it does not use up. -/
theorem outstanding_concat (h : empty.callAll? calls = some t) :
    Outstanding (calls ++ [c]) id ↔
      (c = .takeId ∧ ∃ t', t.takeId? = some (id, t')) ∨
        (Outstanding calls id ∧ ¬ c.Settles id) := by
  constructor
  · rintro ⟨before, after, past, next, hsplit, hpast, htake, hafter⟩
    rcases List.eq_nil_or_concat' after with rfl | ⟨after, last, rfl⟩
    · obtain ⟨rfl, hlast⟩ := List.append_inj' hsplit rfl
      obtain rfl : c = .takeId := List.singleton_inj.mp hlast
      obtain rfl : past = t := Option.some.inj (hpast.symm.trans h)
      exact .inl ⟨rfl, next, htake⟩
    · rw [← List.cons_append, ← List.append_assoc] at hsplit
      obtain ⟨rfl, hlast⟩ := List.append_inj' hsplit rfl
      obtain rfl : c = last := List.singleton_inj.mp hlast
      refine .inr ⟨⟨before, after, past, next, rfl, hpast, htake, ?_⟩, hafter c (by simp)⟩
      intro d hd
      exact hafter d (List.mem_append_left _ hd)
  · rintro (⟨rfl, next, htake⟩ | ⟨⟨before, after, past, next, rfl, hpast, htake, hafter⟩, hc⟩)
    · exact ⟨calls, [], t, next, rfl, h, htake, by simp⟩
    · refine ⟨before, after ++ [c], past, next, by simp, hpast, htake, ?_⟩
      intro d hd
      rcases List.mem_append.mp hd with hd | hd
      · exact hafter d hd
      · rwa [List.mem_singleton.mp hd]

theorem not_outstanding_nil : ¬ Outstanding ([] : List (Call α)) id := by
  rintro ⟨before, after, past, next, hsplit, -⟩
  simp at hsplit

/-- Unused identifiers name nothing, and those outstanding are the ones in range that are neither
unused nor name an object. -/
structure Shares (t : Table α) (calls : List (Call α)) : Prop where
  reached : empty.callAll? calls = some t
  tidy : t.Tidy
  unnamed : ∀ id, t.pool.Holds id.word.toNat → t.get? id = none
  outstanding : ∀ id, Outstanding calls id ↔
    Pool.InRange id.word.toNat ∧ ¬ t.pool.Holds id.word.toNat ∧ t.get? id = none

theorem shares_empty : (empty : Table α).Shares [] where
  reached := rfl
  tidy := .empty
  unnamed _ _ := rfl
  outstanding id := by
    refine iff_of_false not_outstanding_nil ?_
    rintro ⟨⟨hfirst, hlast⟩, hfree, -⟩
    exact hfree ⟨⟨1, Pool.limit - 1⟩, List.mem_singleton_self _, hfirst, hlast⟩

namespace Shares

theorem range (h : t.Shares calls) (hid : t.pool.Holds id.word.toNat) :
    Pool.InRange id.word.toNat := h.tidy.apart.le_of_holds hid

theorem concat (h : t.Shares calls) (hcall : t.call? c = some t') (hc : c ≠ .takeId)
    (hunnamed : ∀ id, t'.pool.Holds id.word.toNat → t'.get? id = none)
    (hstill : ∀ id, Outstanding calls id ∧ ¬ c.Settles id ↔
      Pool.InRange id.word.toNat ∧ ¬ t'.pool.Holds id.word.toNat ∧ t'.get? id = none) :
    t'.Shares (calls ++ [c]) where
  reached := by rw [callAll?_concat, h.reached, Option.bind_some, hcall]
  tidy := h.tidy.call? hcall
  unnamed := hunnamed
  outstanding id := by
    rw [outstanding_concat h.reached, or_iff_right (fun htake => hc htake.1)]
    exact hstill id

theorem taken (h : t.Shares calls) (hcall : t.call? .takeId = some t')
    (htake : t.takeId? = some (id, t')) : t'.Shares (calls ++ [.takeId]) := by
  have htidy := h.tidy.call? hcall
  obtain ⟨left, hleft, rfl⟩ := takeId?_eq_some h.tidy.apart htake
  obtain ⟨hfree, -, hholds⟩ := Pool.takeIn?_eq_some h.tidy.apart hleft
  refine ⟨by rw [callAll?_concat, h.reached, Option.bind_some, hcall], htidy, ?_, ?_⟩
  · intro i hi
    exact h.unnamed i ((hholds _).mp hi).1
  · intro i
    rw [outstanding_concat h.reached, h.outstanding]
    change _ ↔ _ ∧ ¬ (Pool.mk left).Holds i.word.toNat ∧ t.get? i = none
    rw [hholds]
    rcases eq_or_ne i id with rfl | hi
    · exact iff_of_true (.inl ⟨rfl, _, htake⟩)
        ⟨h.range hfree, fun hi => hi.2 rfl, h.unnamed i hfree⟩
    · have hother : ¬ ∃ next, t.takeId? = some (i, next) := by
        rintro ⟨next, hnext⟩
        rw [htake] at hnext
        cases hnext
        exact hi rfl
      simp [hother, Call.Settles, toNat_word_ne hi]

theorem given (h : t.Shares calls) (hpermits : t.Permits (.giveId id)) :
    (t.giveId id).Shares (calls ++ [.giveId id]) := by
  have hnone : t.get? id = none := Option.isNone_iff_eq_none.mp hpermits
  refine h.concat rfl (by simp) ?_ ?_
  · intro i hi
    rcases Pool.holds_give.mp hi with ⟨hi, -⟩ | hi
    · obtain rfl : i = id := by
        by_contra hne
        exact toNat_word_ne hne hi
      exact hnone
    · exact h.unnamed i hi
  · intro i
    change _ ↔ _ ∧ ¬ (t.pool.give id.word.toNat).Holds _ ∧ t.get? i = none
    rw [Pool.holds_give, h.outstanding, Call.Settles]
    rcases eq_or_ne i id with rfl | hi
    · refine iff_of_false (fun hout => hout.2 rfl) ?_
      rintro ⟨hrange, hback, -⟩
      exact hback (.inl ⟨rfl, hrange⟩)
    · simp [toNat_word_ne hi, Ne.symm hi]

theorem created (h : t.Shares calls) {make : ObjectId → α} {made : ObjectId}
    (hcall : t.call? c = some t') (hc : c ≠ .takeId) (hsettles : ∀ id, ¬ c.Settles id)
    (hmade : t.createAt id make = .ok (made, t')) : t'.Shares (calls ++ [c]) := by
  obtain ⟨left, rfl, hfree, -, hholds⟩ := h.tidy.exists_made hmade
  refine h.concat hcall hc ?_ ?_
  · intro i hi
    obtain ⟨hi, hne⟩ := (hholds _).mp hi
    rw [get?_put, if_neg]
    · exact h.unnamed i hi
    · rintro rfl
      exact hne rfl
  · intro i
    change _ ↔ _ ∧ ¬ (Pool.mk left).Holds _ ∧ _
    rw [get?_put, hholds, h.outstanding, and_iff_left (hsettles i)]
    rcases eq_or_ne i made with rfl | hi
    · simp [hfree]
    · rw [if_neg hi, and_iff_left (toNat_word_ne hi)]
      rfl

theorem stored (h : t.Shares calls) {a : α} (hpermits : t.Permits (.store a))
    (hid : ¬ (Identified.ident a).isNull) :
    (t.put (Identified.ident a) a).Shares (calls ++ [.store a]) := by
  have hused : ¬ t.pool.Holds (Identified.ident a).word.toNat := by
    rw [← Pool.isFreeIn_iff h.tidy.apart]
    exact Bool.eq_false_iff.mp hpermits
  refine h.concat (by rw [call?, store_eq hid]) (by simp) ?_ ?_
  · intro i hi
    rw [get?_put, if_neg]
    · exact h.unnamed i hi
    · rintro rfl
      exact hused hi
  · intro i
    change _ ↔ _ ∧ ¬ t.pool.Holds _ ∧ _
    rw [get?_put, h.outstanding, Call.Settles]
    rcases eq_or_ne i (Identified.ident a) with rfl | hi
    · simp
    · rw [if_neg hi, and_iff_left hi.symm]

theorem unchanged (h : t.Shares calls) (hcall : t.call? c = some t') (hc : c ≠ .takeId)
    (hsettles : ∀ id, Outstanding calls id → ¬ c.Settles id) (hpool : t'.pool = t.pool)
    (hget : ∀ id, t'.get? id = none ↔ t.get? id = none) : t'.Shares (calls ++ [c]) := by
  refine h.concat hcall hc ?_ ?_
  · intro i hi
    rw [hget]
    exact h.unnamed i (hpool ▸ hi)
  · intro i
    rw [hpool, hget, ← h.outstanding]
    exact and_iff_left_of_imp (hsettles i)

theorem killed (h : t.Shares calls) (id : ObjectId) :
    (t.kill id).2.Shares (calls ++ [.kill id]) := by
  by_cases hlive : (t.get? id).isSome
  · have hpool : (t.kill id).2.pool = t.pool.give id.word.toNat := by
      rw [kill, if_pos hlive]
      rfl
    refine h.concat rfl (by simp) ?_ ?_
    · intro i hi
      rw [hpool, Pool.holds_give] at hi
      rw [get?_kill h.tidy.descending]
      split
      · rfl
      · rename_i hne
        exact h.unnamed i (hi.resolve_left fun heq => toNat_word_ne hne heq.1)
    · intro i
      rw [hpool, Pool.holds_give, get?_kill h.tidy.descending, h.outstanding]
      rcases eq_or_ne i id with rfl | hi
      · refine iff_of_false (fun hout => ?_) ?_
        · exact Option.isSome_iff_ne_none.mp hlive hout.1.2.2
        · rintro ⟨hrange, hback, -⟩
          exact hback (.inl ⟨rfl, hrange⟩)
      · simp [toNat_word_ne hi, hi, Call.Settles]
  · have hsame : (t.kill id).2 = t := by rw [kill, if_neg hlive]
    rw [hsame]
    exact h.unchanged (by rw [call?, hsame]) (by simp) (fun _ _ => not_false) rfl fun _ => Iff.rfl

theorem call? (h : t.Shares calls) (hpermits : t.Permits c) (hcall : t.call? c = some t') :
    t'.Shares (calls ++ [c]) := by
  cases effect_of_call? hcall with
  | taken htake => exact h.taken hcall htake
  | given id => exact h.given hpermits
  | created hc hmade =>
      rcases hc with ⟨rfl, rfl⟩ | rfl
      · exact h.created hcall (by simp) (fun _ => not_false) hmade
      · exact h.created hcall (by simp) (fun _ => not_false) hmade
  | refused hmade he =>
      exact h.unchanged hcall (by simp) (fun _ _ => not_false) rfl fun _ => Iff.rfl
  | stored hid => exact h.stored hpermits hid
  | @unstored a hid =>
      refine h.unchanged hcall (by simp) ?_ rfl fun _ => Iff.rfl
      -- An identifier that is outstanding is in range, and the null one is not.
      rintro i hi (rfl : Identified.ident a = i)
      exact not_isNull_of_inRange ((h.outstanding _).mp hi).1 hid
  | updated id f =>
      refine h.unchanged hcall (by simp) (fun _ _ => not_false) (t.pool_update id f) ?_
      intro i
      rw [get?_update]
      split
      · rename_i hi
        rw [hi, Option.map_eq_none_iff]
      · rfl
  | killed id => exact h.killed id

end Shares

theorem shares_callAll? (hpermits : empty.PermitsAll calls) (h : empty.callAll? calls = some t) :
    t.Shares calls := by
  induction calls using List.reverseRecOn generalizing t with
  | nil =>
      obtain rfl : empty = t := Option.some.inj h
      exact shares_empty
  | append_singleton calls c ih =>
      rw [callAll?_concat] at h
      obtain ⟨past, hpast, hcall⟩ := Option.bind_eq_some_iff.mp h
      obtain ⟨hcalls, hlast⟩ := permitsAll_concat.mp hpermits
      exact (ih hcalls hpast).call? (hlast past hpast) hcall

namespace Shares

theorem isFree_iff (h : t.Shares calls) : t.isFree id = true ↔ t.pool.Holds id.word.toNat :=
  Pool.isFreeIn_iff h.tidy.apart

theorem existsUnique_stands (h : t.Shares calls) (hrange : Pool.InRange id.word.toNat) :
    ∃! s, t.Stands calls id s := by
  by_cases hfree : t.pool.Holds id.word.toNat
  · refine ⟨.free, h.isFree_iff.mpr hfree, ?_⟩
    rintro (_ | _ | _) hs
    · rfl
    · simp [Stands, h.unnamed id hfree] at hs
    · exact absurd hfree ((h.outstanding id).mp hs).2.1
  · by_cases hlive : t.get? id = none
    · refine ⟨.outstanding, (h.outstanding id).mpr ⟨hrange, hfree, hlive⟩, ?_⟩
      rintro (_ | _ | _) hs
      · exact absurd (h.isFree_iff.mp hs) hfree
      · simp [Stands, hlive] at hs
      · rfl
    · refine ⟨.live, Option.isSome_iff_ne_none.mpr hlive, ?_⟩
      rintro (_ | _ | _) hs
      · exact absurd (h.isFree_iff.mp hs) hfree
      · rfl
      · exact absurd ((h.outstanding id).mp hs).2.2 hlive

theorem fresh (h : t.Shares calls) (hfree : t.pool.Holds id.word.toNat) :
    ¬ t.Stands calls id .live ∧ ¬ t.Stands calls id .outstanding := by
  constructor
  · simp [Stands, h.unnamed id hfree]
  · exact fun hout => ((h.outstanding id).mp hout).2.1 hfree

theorem fresh_createAt (h : t.Shares calls) {i : ObjectId} {make : ObjectId → α}
    (hmade : t.createAt i make = .ok (id, t')) :
    ¬ t.Stands calls id .live ∧ ¬ t.Stands calls id .outstanding :=
  h.fresh (holds_made h.tidy.apart hmade)

theorem stands_kill (h : t.Shares calls) (hlast : id.word < Word.largest)
    (hkilled : (t.kill id).1 = true) :
    (t.kill id).2.Stands (calls ++ [.kill id]) id .free ∧
      ∀ i, i ≠ id → ∀ s, (t.kill id).2.Stands (calls ++ [.kill id]) i s ↔ t.Stands calls i s := by
  have hlive : (t.get? id).isSome := by
    by_contra hnone
    simp [kill, hnone] at hkilled
  have hpool : (t.kill id).2.pool = t.pool.give id.word.toNat := by
    rw [kill, if_pos hlive]
    rfl
  have hafter := h.killed id
  constructor
  · change (t.kill id).2.isFree id = true
    rw [hafter.isFree_iff, hpool, Pool.holds_give]
    exact .inl ⟨rfl, word_pos (h.tidy.not_isNull hlive), UInt64.lt_iff_toNat_lt.mp hlast⟩
  · rintro i hi (_ | _ | _)
    · change (t.kill id).2.isFree i = true ↔ t.isFree i = true
      rw [hafter.isFree_iff, h.isFree_iff, hpool, Pool.holds_give]
      simp [toNat_word_ne hi]
    · simp only [Stands, get?_kill h.tidy.descending, if_neg hi]
    · change Outstanding (calls ++ [.kill id]) i ↔ Outstanding calls i
      rw [outstanding_concat h.reached]
      simp [Call.Settles]

end Shares

/-- If a new table is used by the rules, each identifier from one to the word before the largest is
unused, names an object or is outstanding, and never two of these at once. What is handed out, with
or without an object, was neither live nor outstanding; and killing an object under an identifier
below the largest makes this one unused and no other one change its state. -/
theorem callAll?_shares_ids (hpermits : (empty : Table α).PermitsAll calls)
    (hcalls : empty.callAll? calls = some t) :
    (∀ id : ObjectId, 1 ≤ id.word → id.word ≤ Word.largest - 1 → ∃! s, t.Stands calls id s) ∧
      (∀ id t', t.takeId? = some (id, t') →
        ¬ t.Stands calls id .live ∧ ¬ t.Stands calls id .outstanding) ∧
      (∀ make id t', t.create make = .ok (id, t') →
        ¬ t.Stands calls id .live ∧ ¬ t.Stands calls id .outstanding) ∧
      (∀ i make id t', t.createAt i make = .ok (id, t') →
        ¬ t.Stands calls id .live ∧ ¬ t.Stands calls id .outstanding) ∧
      ∀ id : ObjectId, id.word < Word.largest → (t.kill id).1 = true →
        (t.kill id).2.Stands (calls ++ [.kill id]) id .free ∧
          ∀ i, i ≠ id → ∀ s,
            (t.kill id).2.Stands (calls ++ [.kill id]) i s ↔ t.Stands calls i s := by
  have h : t.Shares calls := shares_callAll? hpermits hcalls
  refine ⟨?_, ?_, ?_, fun i make id t' hmade => h.fresh_createAt hmade,
    fun id hlast hkilled => h.stands_kill hlast hkilled⟩
  · intro id hfirst hlast
    exact h.existsUnique_stands (inRange_word hfirst (UInt64.lt_of_le_of_lt hlast (by decide)))
  · intro id t' htake
    obtain ⟨left, hleft, -⟩ := takeId?_eq_some h.tidy.apart htake
    exact h.fresh (Pool.takeIn?_eq_some h.tidy.apart hleft).1
  · intro make id t' hmade
    rw [← createAt_null t (rfl : ObjectId.null.isNull = true)] at hmade
    exact h.fresh_createAt hmade

theorem callAll?_shares_ids_reused :
    let largest : ObjectId := ⟨Word.largest⟩
    let calls : List (Call Entity) :=
      [.takeId, .takeId, .store (.marker ⟨1⟩), .createAt ⟨5⟩ .marker, .giveId ⟨2⟩, .takeId,
        .store (.marker largest), .kill largest, .store (.marker ⟨1⟩), .kill ⟨5⟩]
    ∃ t, empty.PermitsAll calls ∧ empty.callAll? calls = some t ∧
      t.pool.regions = [⟨3, UInt64.size - 4⟩] ∧ (∃! s, t.Stands calls ⟨2⟩ s) ∧
      (t.kill ⟨1⟩).2.Stands (calls ++ [.kill ⟨1⟩]) ⟨1⟩ .free := by
  intro largest calls
  have hpermits : empty.PermitsAll calls := by decide +kernel
  have hrun : (empty.callAll? calls).map (fun t => (t.pool.regions, (t.kill ⟨1⟩).1)) =
      some ([⟨3, UInt64.size - 4⟩], true) := by decide +kernel
  obtain ⟨t, hcalls, ht⟩ := Option.map_eq_some_iff.mp hrun
  obtain ⟨hregions, hkilled⟩ := Prod.mk.inj ht
  obtain ⟨hstands, -, -, -, hkill⟩ := callAll?_shares_ids hpermits hcalls
  exact ⟨t, hpermits, hcalls, hregions, hstands ⟨2⟩ (by decide) (by decide),
    (hkill ⟨1⟩ (by decide) hkilled).1⟩

end Terrarium.Table
