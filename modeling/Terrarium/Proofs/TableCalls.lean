import Terrarium.Proofs.PoolWords
import Terrarium.World

namespace Terrarium

/-- What can be asked of a table, with no regard to whether an identifier was handed out. -/
inductive Table.Call (α : Type) where
  | takeId
  | giveId (id : ObjectId)
  | create (make : ObjectId → α)
  | createAt (id : ObjectId) (make : ObjectId → α)
  | store (a : α)
  | update (id : ObjectId) (f : α → α)
  | kill (id : ObjectId)

/-- What a call asks of the pool: nothing, its least number, a number of the caller's choice, or to
take one back. -/
inductive PoolRequest where
  | nothing
  | least
  | chosen (id : ObjectId)
  | back (id : ObjectId)

/-- The pool after a request, unless it has no least number. A number that it does not hold cannot
be taken. -/
def Pool.serve? (p : Pool) : PoolRequest → Option Pool
  | .nothing => some p
  | .least => p.takeLeast?.map (·.2)
  | .chosen id => some ((p.take? id.word.toNat).getD p)
  | .back id => some (p.give id.word.toNat)

/-- The words of a pool after a request, unless it has no least word or an overflow stops it. -/
def WordPool.serve? (w : WordPool) : PoolRequest → Option WordPool
  | .nothing => some w
  | .least => w.takeLeast?.map (·.2)
  | .chosen id => (w.take? id.word).map fun
      | .ok w => w
      | .error _ => w
  | .back id => w.give? id.word

theorem Pool.apart_serve? {p p' : Pool} {q : PoolRequest} (h : Apart 1 p.regions)
    (hserve : p.serve? q = some p') : Apart 1 p'.regions := by
  cases q with
  | nothing =>
      obtain rfl : p = p' := Option.some.inj hserve
      exact h
  | least =>
      obtain ⟨regions⟩ := p
      cases regions with
      | nil => simp [serve?, takeLeast?] at hserve
      | cons r rest =>
          obtain rfl : mk (r.without r.first ++ rest) = p' := by
            simpa [serve?, takeLeast?] using hserve
          exact h.without ⟨le_rfl, Nat.lt_add_of_pos_right (h.count_pos r List.mem_cons_self)⟩
  | chosen id =>
      obtain rfl : (p.take? id.word.toNat).getD p = p' := Option.some.inj hserve
      by_cases hn : p.Holds id.word.toNat
      · obtain ⟨left, htake, hleft, -⟩ := exists_takeIn? h hn
        rwa [take?, htake]
      · rwa [take?, takeIn?_eq_none hn]
  | back id =>
      obtain rfl : p.give id.word.toNat = p' := Option.some.inj hserve
      rw [give]
      split
      · exact h
      · rename_i hguard
        exact apart_giveIn h (by omega) (by omega)

/-- Words serve a request as the pool does that they stand for. -/
theorem WordPool.exists_serve? {w : WordPool} {p : Pool} {q : PoolRequest}
    (h : Apart 1 w.pool.regions) (hchosen : ∀ id, q = .chosen id → ¬ id.isNull)
    (hserve : w.pool.serve? q = some p) : ∃ w', w.serve? q = some w' ∧ w'.pool = p := by
  cases q with
  | nothing => exact ⟨w, rfl, Option.some.inj hserve⟩
  | least =>
      obtain ⟨⟨n, p'⟩, htake, rfl⟩ := Option.map_eq_some_iff.mp hserve
      obtain ⟨id, w', hw', -, hpool⟩ := exists_takeLeast? h htake
      exact ⟨w', by rw [serve?, hw']; rfl, hpool⟩
  | chosen id =>
      have hid : id.word ≠ 0 := by
        intro hzero
        apply hchosen id rfl
        obtain ⟨word⟩ := id
        obtain rfl : word = 0 := hzero
        rfl
      obtain ⟨result, htake, hresult⟩ := exists_take? h hid
      obtain rfl : (w.pool.take? id.word.toNat).getD w.pool = p := Option.some.inj hserve
      rw [serve?, htake]
      cases hpool : w.pool.take? id.word.toNat with
      | none =>
          rw [hpool] at hresult
          cases result with
          | error e => exact ⟨w, rfl, rfl⟩
          | ok w' => simp [Except.map] at hresult
      | some p' =>
          rw [hpool] at hresult
          cases result with
          | error e => simp [Except.map] at hresult
          | ok w' => exact ⟨w', rfl, Except.ok.inj hresult⟩
  | back id =>
      obtain ⟨w', hw', hpool⟩ := exists_give? h id.word
      exact ⟨w', hw', hpool.trans (Option.some.inj hserve)⟩

namespace Table

variable {α : Type}

theorem create_eq (t : Table α) (make : ObjectId → α) :
    t.create make =
      match t.pool.takeLeast? with
      | none => .error .exhausted
      | some (n, pool) =>
          .ok (⟨UInt64.ofNat n⟩, { t with pool }.put ⟨UInt64.ofNat n⟩ (make ⟨UInt64.ofNat n⟩)) := by
  rw [create, takeId?]
  cases t.pool.takeLeast? <;> rfl

theorem createAt_null (t : Table α) {id : ObjectId} (hid : id.isNull) (make : ObjectId → α) :
    t.createAt id make = t.create make := if_pos hid

theorem createAt_eq (t : Table α) {id : ObjectId} (hid : ¬ id.isNull) (make : ObjectId → α) :
    t.createAt id make =
      match t.pool.take? id.word.toNat with
      | none => .error (.idInUse id)
      | some pool => .ok (id, { t with pool }.put id (make id)) := if_neg hid

theorem pool_update (t : Table α) (id : ObjectId) (f : α → α) : (t.update id f).pool = t.pool := by
  rw [update]
  split <;> rfl

/-- What a call asks of the pool. -/
def request (t : Table α) : Call α → PoolRequest
  | .takeId => .least
  | .giveId id => .back id
  | .create _ => .least
  | .createAt id _ => if id.isNull then .least else .chosen id
  | .store _ => .nothing
  | .update _ _ => .nothing
  | .kill id => if (t.get? id).isSome then .back id else .nothing

theorem request_not_null {t : Table α} {c : Call α} {id : ObjectId}
    (h : t.request c = .chosen id) : ¬ id.isNull := by
  cases c with
  | createAt i make =>
      rw [request] at h
      split at h
      · simp at h
      · rename_i hid
        obtain rfl : i = id := PoolRequest.chosen.inj h
        exact hid
  | kill i =>
      rw [request] at h
      split at h <;> simp at h
  | _ => simp [request] at h

variable [Identified α]

/-- The table after a call, unless it asks an empty pool for an identifier. A call that is refused
leaves the table as it was. -/
def call? (t : Table α) : Call α → Option (Table α)
  | .takeId => t.takeId?.map (·.2)
  | .giveId id => some (t.giveId id)
  | .create make =>
      match t.create make with
      | .ok (_, t) => some t
      | .error _ => none
  | .createAt id make =>
      match t.createAt id make with
      | .ok (_, t) => some t
      | .error .exhausted => none
      | .error _ => some t
  | .store a =>
      match t.store a with
      | .ok t => some t
      | .error _ => some t
  | .update id f => some (t.update id f)
  | .kill id => some (t.kill id).2

/-- The table after calls in turn. -/
def callAll? (t : Table α) (calls : List (Call α)) : Option (Table α) := calls.foldlM call? t

/-- A call on a table beside a pool of words, which serves what the call asks of the pool. -/
def callWords? (s : Table α × WordPool) (c : Call α) : Option (Table α × WordPool) := do
  let w ← s.2.serve? (s.1.request c)
  let t ← s.1.call? c
  return (t, w)

/-- A call changes the pool by what it asks of it and in no other way. -/
theorem pool_call? (t : Table α) (c : Call α) :
    (t.call? c).map (·.pool) = t.pool.serve? (t.request c) := by
  have hcreate (make : ObjectId → α) :
      (t.call? (.create make)).map (·.pool) = t.pool.takeLeast?.map (·.2) := by
    rw [call?, create_eq]
    cases t.pool.takeLeast? <;> rfl
  cases c with
  | takeId =>
      rw [call?, takeId?, Option.map_map, Option.map_map]
      rfl
  | giveId id => rfl
  | create make => exact hcreate make
  | createAt id make =>
      by_cases hid : id.isNull
      · rw [call?, createAt_null t hid, request, if_pos hid]
        refine .trans ?_ (hcreate make)
        rw [call?, create_eq]
        cases t.pool.takeLeast? <;> rfl
      · rw [call?, createAt_eq t hid, request, if_neg hid]
        simp only [Pool.serve?]
        cases t.pool.take? id.word.toNat <;> rfl
  | store a =>
      rw [call?, store]
      by_cases hid : (Identified.ident a).isNull <;> simp [hid] <;> rfl
  | update id f => exact congrArg some (t.pool_update id f)
  | kill id =>
      rw [call?, kill, request]
      split <;> rfl

theorem call?_isSome {t : Table α} (h : t.pool.regions ≠ []) (c : Call α) : (t.call? c).isSome := by
  have hserve (q : PoolRequest) : (t.pool.serve? q).isSome := by
    cases q with
    | least =>
        rw [Pool.serve?, Pool.takeLeast?]
        cases hregions : t.pool.regions with
        | nil => exact absurd hregions h
        | cons r rest => rfl
    | _ => rfl
  rw [← Option.isSome_map (f := Table.pool), pool_call?]
  exact hserve _

theorem apart_call? {t t' : Table α} {c : Call α} (h : Apart 1 t.pool.regions)
    (hcall : t.call? c = some t') : Apart 1 t'.pool.regions := by
  apply Pool.apart_serve? h (q := t.request c)
  rw [← pool_call?, hcall]
  rfl

theorem apart_callAll? {t t' : Table α} {calls : List (Call α)} (h : Apart 1 t.pool.regions)
    (hcalls : t.callAll? calls = some t') : Apart 1 t'.pool.regions := by
  induction calls generalizing t with
  | nil =>
      obtain rfl : t = t' := Option.some.inj hcalls
      exact h
  | cons c calls ih =>
      obtain ⟨next, hnext, hrest⟩ := Option.bind_eq_some_iff.mp hcalls
      exact ih (apart_call? h hnext) hrest

theorem exists_callWords? {t t' : Table α} {w : WordPool} {c : Call α} (hw : w.pool = t.pool)
    (h : Apart 1 t.pool.regions) (hcall : t.call? c = some t') :
    ∃ w', callWords? (t, w) c = some (t', w') ∧ w'.pool = t'.pool := by
  have hserve : w.pool.serve? (t.request c) = some t'.pool := by
    rw [hw, ← pool_call?, hcall]
    rfl
  obtain ⟨w', hw', hpool⟩ :=
    WordPool.exists_serve? (hw ▸ h) (fun id hid => request_not_null hid) hserve
  exact ⟨w', by simp [callWords?, hw', hcall], hpool⟩

/-- The words go along with the pool through a whole run. -/
theorem exists_callAllWords? {t t' : Table α} {w : WordPool} {calls : List (Call α)}
    (hw : w.pool = t.pool) (h : Apart 1 t.pool.regions) (hcalls : t.callAll? calls = some t') :
    ∃ w', calls.foldlM callWords? (t, w) = some (t', w') ∧ w'.pool = t'.pool := by
  induction calls generalizing t w with
  | nil =>
      obtain rfl : t = t' := Option.some.inj hcalls
      exact ⟨w, rfl, hw⟩
  | cons c calls ih =>
      obtain ⟨next, hnext, hrest⟩ := Option.bind_eq_some_iff.mp hcalls
      obtain ⟨w', hw', hpool⟩ := exists_callWords? hw h hnext
      obtain ⟨last, hlast, hlastPool⟩ := ih hpool (apart_call? h hnext) hrest
      exact ⟨last, by simp [hw', hlast], hlastPool⟩

theorem apart_all : Apart 1 Pool.all.regions := .cons le_rfl (by decide) le_rfl (.nil _)

/-- In whatever way a new table is used, its regions ascend, hold something, stand apart and keep to
the identifiers that can be handed out, and as long as there is one, any call goes through; and the
run on words comes to its end with the same pool, which can be counted and searched. -/
theorem regions_callAll? {calls : List (Call α)} {t : Table α} (h : empty.callAll? calls = some t) :
    t.pool.regions.Pairwise (fun r s => r.first < s.first) ∧
      (∀ r ∈ t.pool.regions, 0 < r.count) ∧
      t.pool.regions.IsChain (fun r s => r.first + r.count < s.first) ∧
      (∀ r ∈ t.pool.regions, ∀ n, r.Holds n → 1 ≤ n ∧ n ≤ UInt64.size - 2) ∧
      (t.pool.regions ≠ [] → ∀ c, (t.call? c).isSome) ∧
      ∃ w : WordPool,
        calls.foldlM callWords? (empty, WordPool.all) = some (t, w) ∧ w.pool = t.pool ∧
          (∃ size, w.size? = some size ∧ size.toNat = t.freeCount) ∧
          ∀ id, w.isFree? id.word = some (t.isFree id) := by
  have hapart : Apart 1 t.pool.regions := apart_callAll? apart_all h
  obtain ⟨w, hw, hpool⟩ := exists_callAllWords? (w := WordPool.all) rfl apart_all h
  refine ⟨?_, hapart.count_pos, hapart.pairwise.isChain, ?_, call?_isSome, w, hw, hpool, ?_, ?_⟩
  · exact hapart.pairwise.imp fun hrs => Nat.lt_of_le_of_lt (Nat.le_add_right _ _) hrs
  · intro r hr n hn
    have hbounds := hapart.le_of_holds ⟨r, hr, hn⟩
    exact ⟨hbounds.1, Nat.le_pred_of_lt hbounds.2⟩
  · obtain ⟨size, hsize, hvalue⟩ := WordPool.exists_size? (hpool ▸ hapart)
    exact ⟨size, hsize, hvalue.trans (congrArg Pool.size hpool)⟩
  · intro id
    rw [WordPool.isFree?_eq (hpool ▸ hapart), hpool]
    rfl

theorem regions_callAll?_ends :
    let last : ObjectId := ⟨18446744073709551614⟩
    let largest : ObjectId := ⟨18446744073709551615⟩
    let calls : List (Call Entity) :=
      [.giveId .null, .giveId largest, .giveId ⟨7⟩, .takeId, .createAt last .marker,
        .createAt ⟨3⟩ .marker, .createAt ⟨3⟩ .marker, .store (.marker largest), .kill largest,
        .store (.marker ⟨50⟩), .kill ⟨50⟩, .kill last, .giveId last]
    ∃ t, empty.callAll? calls = some t ∧ t.pool.regions = [⟨2, 1⟩, ⟨4, UInt64.size - 5⟩] ∧
      t.pool.regions.IsChain (fun r s => r.first + r.count < s.first) := by
  intro last largest calls
  have hrun : (empty.callAll? calls).map (·.pool.regions) =
      some [⟨2, 1⟩, ⟨4, UInt64.size - 5⟩] := by decide
  obtain ⟨t, hcalls, hregions⟩ := Option.map_eq_some_iff.mp hrun
  obtain ⟨-, -, hchain, -⟩ := regions_callAll? hcalls
  exact ⟨t, hcalls, hregions, hchain⟩

end Table

end Terrarium
