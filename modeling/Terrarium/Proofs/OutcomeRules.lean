import Terrarium.Proofs.BrushCells
import Terrarium.Proofs.FreeIds
import Terrarium.Proofs.RasterWorld
import Terrarium.Proofs.SourceOrder

namespace Terrarium

/-- An outcome that is decided: the arguments are refused in one case; else there is a certain
failure in another one; else there is a success, of which the right thing is told. -/
structure Outcome.Decided (outcome : Outcome) (refused : Prop) (cause : Failure) (failed : Prop)
    (told : Delta → Prop) : Prop where
  refused_iff : (∃ text, outcome = .failure (.invalidArgument text)) ↔ refused
  failed_iff : outcome = .failure cause ↔ ¬refused ∧ failed
  success_iff : (∃ delta, outcome = .success delta ∧ told delta) ↔ ¬refused ∧ ¬failed

/-- How operations end on a grid of a size where sources live under some identifiers. -/
def Operation.Ends (size : UInt32) (live : ObjectId → Prop) (outcome : Outcome) : Operation → Prop
  | .terraformRaise b | .terraformLevel b _ | .terraformSmooth b =>
      outcome.Decided b.Malformed .outOfBounds (∀ x y, ¬b.Touches size x y)
        fun delta => ∃ r, delta = .terrain r
  | .terraformRamp b start _ stop _ =>
      outcome.Decided ((stop - start).length < 1 ∨ b.Malformed) .outOfBounds
          (∀ x y, ¬b.Touches size x y) (fun delta => ∃ r, delta = .terrain r) ∧
        ((stop - start).length < 1 → outcome = .failure Objection.shortRamp.failure)
  | .fluidRaise b =>
      outcome.Decided b.Malformed .outOfBounds (∀ x y, ¬b.Touches size x y)
        fun delta => ∃ r, delta = .fluid r
  | .sourceCreate id pos radius _ _ =>
      outcome.Decided
        (¬pos.isFinite ∨ ¬radius.isFinite ∨ radius < 0 ∨
          ¬id.isNull ∧ (live id ∨ id.word = Word.largest))
        .outOfBounds False fun delta => ∃ made, delta = .created made ∧
          if id.isNull then IsLeast {word | 1 ≤ word ∧ ¬live ⟨word⟩} made.word else made = id
  | .sourceMove id pos =>
      outcome.Decided (¬pos.isFinite) (.noSuchObject id) (¬live id) (· = .updated id)
  | .sourceSetLevel id _ | .sourceSetCapacity id _ =>
      outcome.Decided False (.noSuchObject id) (¬live id) (· = .updated id)
  | .sourceDestroy id =>
      outcome.Decided False (.noSuchObject id) (¬live id) (· = .destroyed id)
  | .oceanSetLevel _ | .fluidReset => outcome.Decided False .outOfBounds False (· = .nothing)

namespace Outcome

variable {refused failed : Prop} {cause : Failure} {told : Delta → Prop}

theorem outOfBounds_ne (text : String) : Failure.outOfBounds ≠ .invalidArgument text := by
  intro h
  cases h

theorem noSuchObject_ne (id : ObjectId) (text : String) :
    Failure.noSuchObject id ≠ .invalidArgument text := by
  intro h
  cases h

theorem decided_refused {text : String} (hrefused : refused)
    (hcause : ∀ text, cause ≠ .invalidArgument text) :
    (failure (.invalidArgument text)).Decided refused cause failed told where
  refused_iff := by simp [hrefused]
  failed_iff := by simp [hrefused, (hcause text).symm]
  success_iff := by simp [hrefused]

theorem decided_failed (hrefused : ¬refused) (hfailed : failed)
    (hcause : ∀ text, cause ≠ .invalidArgument text) :
    (failure cause).Decided refused cause failed told where
  refused_iff := by simp [hrefused, hcause]
  failed_iff := by simp [hrefused, hfailed]
  success_iff := by simp [hfailed]

theorem decided_success {delta : Delta} (hrefused : ¬refused) (hfailed : ¬failed)
    (htold : told delta) : (success delta).Decided refused cause failed told where
  refused_iff := by simp [hrefused]
  failed_iff := by simp [hfailed]
  success_iff := by simp [hrefused, hfailed, htold]

/-- The outcome of what an operation comes to. -/
def of : Except Failure (Delta × World) → Outcome
  | .error e => .failure e
  | .ok (delta, _) => .success delta

/-- The outcome of painting with a footprint. -/
def painted (made : Rect → Delta) : Except Failure Rect → Outcome
  | .error e => .failure e
  | .ok r => .success (made r)

theorem decided_painted {b : Brush} (size : UInt32) {made : Rect → Delta}
    (hrefused : refused ↔ b.Malformed) :
    (painted made (b.footprint size)).Decided refused .outOfBounds (∀ x y, ¬b.Touches size x y)
      fun delta => ∃ r, delta = made r := by
  rcases b.footprint_cases size with
    ⟨hmalformed, text, hfoot⟩ | ⟨hmalformed, hmissed, hfoot⟩ | ⟨hmalformed, ⟨x, y, htouch⟩, hfoot⟩
  · rw [hfoot]
    exact decided_refused (hrefused.mpr hmalformed) outOfBounds_ne
  · rw [hfoot]
    exact decided_failed (mt hrefused.mp hmalformed) hmissed outOfBounds_ne
  · rw [hfoot]
    exact decided_success (mt hrefused.mp hmalformed) (fun hmissed => hmissed x y htouch) ⟨_, rfl⟩

end Outcome

theorem Table.ServesSet.fst_createAt_eq {α : Type} [Identified α] {t t' : Table α}
    {unused : Set UInt64} (h : t.ServesSet unused) (h' : t'.ServesSet unused) {id : ObjectId}
    (hids : id.isNull → unused.Nonempty) (make : ObjectId → α) :
    (t.createAt id make).map Prod.fst = (t'.createAt id make).map Prod.fst := by
  by_cases hid : id.isNull
  · obtain ⟨made, left, htake, hleast, -⟩ := h.least (hids hid)
    obtain ⟨made', left', htake', hleast', -⟩ := h'.least (hids hid)
    have hmade : made = made' := congrArg ObjectId.mk
      (UInt64.le_antisymm (hleast.2 hleast'.1) (hleast'.2 hleast.1))
    rw [createAt_null t hid, createAt_null t' hid, create, create, htake, htake', hmade]
    rfl
  · by_cases hfree : id.word ∈ unused
    · obtain ⟨left, hmade, -⟩ := h.taken id make hid hfree
      obtain ⟨left', hmade', -⟩ := h'.taken id make hid hfree
      rw [hmade, hmade']
      rfl
    · rw [(h.refused id make hid hfree).1, (h'.refused id make hid hfree).1]

open Outcome

namespace World

variable {size : UInt32} {v w : World} {b : Brush} {id : ObjectId} {pos : Point}
  {radius level capacity : Float32}

/-- Whether a source lives under an identifier. -/
def Lives (w : World) (id : ObjectId) : Prop := (w.source? id).isSome

instance (w : World) (id : ObjectId) : Decidable (w.Lives id) :=
  inferInstanceAs (Decidable ((w.source? id).isSome = true))

theorem execute_fst (w : World) (op : Operation) :
    (w.execute op).1 = .of ((w.met op).apply op) := by
  rw [execute_eq]
  cases (w.met op).apply op <;> rfl

theorem of_paintGround (w : World) (b : Brush)
    (rule : Grid Float32 → Nat → Nat → Float32 → Grid Float32) :
    of (w.paintGround b rule) = painted .terrain (b.footprint w.ground.size) := by
  rw [paintGround, HeightMap.painted]
  cases b.footprint w.ground.size <;> rfl

theorem of_paintFluid (w : World) (b : Brush) :
    of (w.paintFluid b) = painted .fluid (b.footprint w.basin.size) := by
  rw [paintFluid]
  cases b.footprint w.basin.size <;> rfl

theorem of_paintRamp (w : World) (b : Brush) (start stop : Point)
    (startHeight stopHeight : Float32) :
    of (w.paintRamp b start startHeight stop stopHeight) =
      if (stop - start).length < 1 then .failure Objection.shortRamp.failure
      else painted .terrain (b.footprint w.ground.size) := by
  rw [paintRamp]
  dsimp only
  split
  · rfl
  · exact of_paintGround w b _

theorem of_updateSource (w : World) (id : ObjectId) (f : Source → Source) :
    of (w.updateSource id f) =
      if w.Lives id then .success (.updated id) else .failure (.noSuchObject id) := by
  change _ = ite ((w.source? id).isSome = true) _ _
  rw [updateSource]
  cases w.source? id <;> rfl

theorem of_destroySource (w : World) (id : ObjectId) :
    of (w.destroySource id) =
      if w.Lives id then .success (.destroyed id) else .failure (.noSuchObject id) := by
  change _ = ite ((w.source? id).isSome = true) _ _
  rw [destroySource]
  cases w.source? id <;> rfl

theorem of_moveSource (w : World) (id : ObjectId) (pos : Point) :
    of (w.moveSource id pos) =
      match checkPlacement pos 0 with
      | .error e => .failure e
      | .ok _ => if w.Lives id then .success (.updated id) else .failure (.noSuchObject id) := by
  rw [moveSource]
  cases checkPlacement pos 0 with
  | error e => rfl
  | ok _ => exact w.of_updateSource id _

theorem of_createSource (w : World) (id : ObjectId) (pos : Point)
    (radius level capacity : Float32) :
    of (w.createSource id pos radius level capacity) =
      match checkPlacement pos radius with
      | .error e => .failure e
      | .ok _ =>
          match (w.objects.createAt id fun id => .source ⟨id, pos, radius, level, capacity⟩).map
            Prod.fst with
          | .error e => .failure (Objection.store e).failure
          | .ok made => .success (.created made) := by
  rw [createSource]
  cases checkPlacement pos radius with
  | error e => rfl
  | ok _ =>
      cases w.objects.createAt id fun id => Entity.source ⟨id, pos, radius, level, capacity⟩ <;> rfl

theorem checkPlacement_cases (pos : Point) (radius : Float32) :
    ((¬pos.isFinite ∨ ¬radius.isFinite ∨ radius < 0) ∧
        ∃ text, checkPlacement pos radius = .error (.invalidArgument text)) ∨
      (¬(¬pos.isFinite ∨ ¬radius.isFinite ∨ radius < 0) ∧ checkPlacement pos radius = .ok ()) := by
  rw [checkPlacement]
  split
  · rename_i hpos
    exact .inl ⟨.inl (by simpa using hpos), _, rfl⟩
  · rename_i hpos
    split
    · rename_i hradius
      exact .inl ⟨.inr (by simpa using hradius), _, rfl⟩
    · rename_i hradius
      refine .inr ⟨?_, rfl⟩
      rintro (h | h)
      · exact hpos (by simpa using h)
      · exact hradius (by simpa using h)

/-- The size of the grid, how identifiers are shared out, and that all objects are sources. -/
structure Orderly (size : UInt32) (w : World) : Prop where
  ground : w.ground.size = size
  basin : w.basin.size = size
  objects : w.objects.Partitioned
  sources : ∀ id e, w.objects.get? id = some e → e.source?.isSome

theorem orderly_moveAll (size : UInt32) (moves : List Move) :
    ((new size).moveAll moves).Orderly size := by
  have hshared : ((new size).moveAll moves).Shared size :=
    moveAll_keeps (fun _ m h => h.move m) (shared_new size) moves
  have hobjects := moveAll_keeps_objects (w := new size)
    (P := fun t => t.Partitioned ∧ ∀ id e, t.get? id = some e → e.source?.isSome)
    ?_ ?_ ?_ ⟨Table.partitioned_empty,
      by simp [Table.get?, new, onGround, Table.empty, Table.lookup]⟩
    moves
  · exact ⟨hshared.ground, hshared.back, hobjects.1, hobjects.2⟩
  · intro t t' id made make ht hident hmade
    have hknown (id : ObjectId) : Identified.ident (Entity.source (make id)) = id := hident id
    refine ⟨ht.1.createAt hknown hmade, fun i e he => ?_⟩
    rw [Table.get?_createAt hmade] at he
    split at he
    · cases he
      rfl
    · exact ht.2 i e he
  · intro t id f ht hident
    refine ⟨ht.1.update (Entity.ident_mapSource hident), fun i e he => ?_⟩
    rw [Table.get?_update] at he
    split at he
    · obtain ⟨e', he', rfl⟩ := Option.map_eq_some_iff.mp he
      cases e' with
      | source s => rfl
      | marker m => exact absurd (ht.2 _ _ he') Bool.false_ne_true
    · exact ht.2 i e he
  · intro t id ht
    refine ⟨ht.1.kill id, fun i e he => ?_⟩
    rw [Table.get?_kill ht.1.descending] at he
    split at he
    · cases he
    · exact ht.2 i e he

theorem Orderly.met (hw : w.Orderly size) (op : Operation) : (w.met op).Orderly size := by
  rw [World.met]
  split
  · exact ⟨hw.ground, w.basin.size_wait.trans hw.basin, hw.objects, hw.sources⟩
  · exact hw

theorem lives_met (w : World) (op : Operation) : (w.met op).Lives = w.Lives := by
  rw [World.met]
  split <;> rfl

theorem Orderly.mem_free (hw : w.Orderly size) (id : ObjectId) :
    id.word ∈ w.objects.free ↔ Pool.InRange id.word.toNat ∧ ¬w.Lives id := by
  have hlives : w.Lives id ↔ (w.objects.get? id).isSome := by
    rw [Lives, source?, Table.getAs?]
    cases hget : w.objects.get? id with
    | none => rfl
    | some e => simp [hw.sources id e hget]
  rw [hlives, hw.objects.named]
  constructor
  · intro hfree
    exact ⟨hw.objects.apart.le_of_holds hfree, fun hnamed => hnamed.2 hfree⟩
  · rintro ⟨hrange, hunnamed⟩
    by_contra hfree
    exact hunnamed ⟨hrange, hfree⟩

theorem inRange_of_not_isNull (hid : ¬id.isNull) (hlast : id.word ≠ Word.largest) :
    Pool.InRange id.word.toNat := by
  obtain ⟨word⟩ := id
  constructor
  · by_contra hzero
    have hword : word = 0 := UInt64.toNat_inj.mp (Nat.lt_one_iff.mp (Nat.not_le.mp hzero))
    subst hword
    exact hid rfl
  · by_contra hlimit
    have hlt := word.toNat_lt
    exact hlast (UInt64.toNat_inj.mp (Nat.le_antisymm (Nat.le_of_lt_succ hlt)
      (Nat.le_of_not_lt hlimit)))

theorem Orderly.mem_free_chosen (hw : w.Orderly size) (hid : ¬id.isNull) :
    id.word ∈ w.objects.free ↔ ¬(w.Lives id ∨ id.word = Word.largest) := by
  rw [hw.mem_free, not_or]
  constructor
  · rintro ⟨⟨-, hlimit⟩, hdead⟩
    exact ⟨hdead, fun hlast => Nat.ne_of_lt hlimit (congrArg UInt64.toNat hlast)⟩
  · rintro ⟨hdead, hlast⟩
    exact ⟨inRange_of_not_isNull hid hlast, hdead⟩

theorem Orderly.isLeast (hw : w.Orderly size) {word : UInt64} (h : IsLeast w.objects.free word) :
    IsLeast {word | 1 ≤ word ∧ ¬w.Lives ⟨word⟩} word := by
  obtain ⟨⟨hfirst, hlimit⟩, hdead⟩ := (hw.mem_free ⟨word⟩).mp h.1
  refine ⟨⟨UInt64.le_iff_toNat_le.mpr hfirst, hdead⟩, ?_⟩
  rintro v ⟨hpos, hunused⟩
  by_cases hv : v.toNat < Pool.limit
  · exact h.2 ((hw.mem_free ⟨v⟩).mpr ⟨⟨UInt64.le_iff_toNat_le.mp hpos, hv⟩, hunused⟩)
  · exact UInt64.le_iff_toNat_le.mpr (hlimit.le.trans (Nat.le_of_not_lt hv))

/-- There is an identifier that can be handed out and under which no source lives. -/
def HasUnused (w : World) : Prop :=
  ∃ id : ObjectId, 1 ≤ id.word ∧ id.word < Word.largest ∧ ¬w.Lives id

theorem Orderly.free_nonempty (hw : w.Orderly size) (h : w.HasUnused) :
    w.objects.free.Nonempty := by
  obtain ⟨id, hfirst, hlast, hdead⟩ := h
  exact ⟨id.word, (hw.mem_free id).mpr
    ⟨⟨UInt64.le_iff_toNat_le.mp hfirst, UInt64.lt_iff_toNat_lt.mp hlast⟩, hdead⟩⟩

theorem Orderly.ends_createSource (hw : w.Orderly size) (hids : id.isNull → w.HasUnused) :
    (Operation.sourceCreate id pos radius level capacity).Ends size w.Lives
      (of (w.createSource id pos radius level capacity)) := by
  have hserves := Table.servesSet_free hw.objects.apart
  rw [of_createSource]
  rcases checkPlacement_cases pos radius with ⟨hrefused, text, hcheck⟩ | ⟨hplaced, hcheck⟩
  · rw [hcheck]
    refine decided_refused ?_ outOfBounds_ne
    tauto
  · rw [hcheck]
    dsimp only
    by_cases hid : id.isNull
    · obtain ⟨made, t, htake, hleast, -⟩ := hserves.least (hw.free_nonempty (hids hid))
      rw [Table.createAt_null _ hid, Table.create, htake]
      refine decided_success ?_ not_false ⟨made, rfl, ?_⟩
      · tauto
      · rw [if_pos hid]
        exact hw.isLeast hleast
    · by_cases hfree : id.word ∈ w.objects.free
      · obtain ⟨t, hmade, -⟩ :=
          hserves.taken id (fun id => .source ⟨id, pos, radius, level, capacity⟩) hid hfree
        have htaken := (hw.mem_free_chosen hid).mp hfree
        rw [hmade]
        refine decided_success ?_ not_false ⟨id, rfl, ?_⟩
        · tauto
        · rw [if_neg hid]
      · have hmade :=
          (hserves.refused id (fun id => .source ⟨id, pos, radius, level, capacity⟩) hid hfree).1
        have htaken := not_not.mp (mt (hw.mem_free_chosen hid).mpr hfree)
        rw [hmade]
        refine decided_refused ?_ outOfBounds_ne
        tauto

theorem Orderly.ends_apply (hw : w.Orderly size) (op : Operation)
    (hids : op.picksId → w.HasUnused) : op.Ends size w.Lives (of (w.apply op)) := by
  have hlives (id : ObjectId) (delta : Delta) {refused : Prop} (hrefused : ¬refused) :
      (if w.Lives id then Outcome.success delta else .failure (.noSuchObject id)).Decided refused
        (.noSuchObject id) (¬w.Lives id) (· = delta) := by
    split
    · rename_i hlive
      exact decided_success hrefused (not_not.mpr hlive) rfl
    · rename_i hlive
      exact decided_failed hrefused hlive (noSuchObject_ne id)
  cases op with
  | terraformRaise b | terraformLevel b reference | terraformSmooth b =>
      rw [apply, of_paintGround, hw.ground]
      exact decided_painted size Iff.rfl
  | terraformRamp b start startHeight stop stopHeight =>
      rw [apply, of_paintRamp, hw.ground]
      split
      · rename_i hshort
        exact ⟨decided_refused (.inl hshort) outOfBounds_ne, fun _ => rfl⟩
      · rename_i hshort
        exact ⟨decided_painted size (or_iff_right hshort), fun h => absurd h hshort⟩
  | fluidRaise b =>
      rw [apply, of_paintFluid, hw.basin]
      exact decided_painted size Iff.rfl
  | sourceCreate id pos radius level capacity => exact hw.ends_createSource hids
  | sourceMove id pos =>
      have hzero : ¬(¬(0 : Float32).isFinite ∨ (0 : Float32) < 0) := by decide +kernel
      rw [apply, of_moveSource]
      rcases checkPlacement_cases pos 0 with ⟨hrefused, text, hcheck⟩ | ⟨hplaced, hcheck⟩
      · rw [hcheck]
        exact decided_refused (hrefused.resolve_right hzero) (noSuchObject_ne id)
      · rw [hcheck]
        exact hlives id _ fun hpos => hplaced (.inl hpos)
  | sourceSetLevel id level | sourceSetCapacity id capacity =>
      rw [apply, of_updateSource]
      exact hlives id _ not_false
  | sourceDestroy id =>
      rw [apply, of_destroySource]
      exact hlives id _ not_false
  | oceanSetLevel level | fluidReset => exact decided_success not_false not_false rfl

theorem Orderly.of_apply_eq (hv : v.Orderly size) (hw : w.Orderly size) (hsame : v.Lives = w.Lives)
    (op : Operation) (hids : op.picksId → w.HasUnused) : of (v.apply op) = of (w.apply op) := by
  have hlives (id : ObjectId) (delta : Delta) :
      (if v.Lives id then Outcome.success delta else .failure (.noSuchObject id)) =
        if w.Lives id then .success delta else .failure (.noSuchObject id) := by
    simp only [hsame]
  cases op with
  | terraformRaise b | terraformLevel b reference | terraformSmooth b =>
      rw [apply, apply, of_paintGround, of_paintGround, hv.ground, hw.ground]
  | terraformRamp b start startHeight stop stopHeight =>
      rw [apply, apply, of_paintRamp, of_paintRamp, hv.ground, hw.ground]
  | fluidRaise b => rw [apply, apply, of_paintFluid, of_paintFluid, hv.basin, hw.basin]
  | sourceCreate id pos radius level capacity =>
      have hfree : v.objects.free = w.objects.free := by
        ext word
        exact (hv.mem_free ⟨word⟩).trans (hsame ▸ (hw.mem_free ⟨word⟩).symm)
      have hserves : v.objects.ServesSet w.objects.free :=
        hfree ▸ Table.servesSet_free hv.objects.apart
      rw [apply, apply, of_createSource, of_createSource,
        hserves.fst_createAt_eq (Table.servesSet_free hw.objects.apart)
          fun hid => hw.free_nonempty (hids hid)]
  | sourceMove id pos =>
      rw [apply, apply, of_moveSource, of_moveSource]
      simp only [hlives]
  | sourceSetLevel id level | sourceSetCapacity id capacity =>
      rw [apply, apply, of_updateSource, of_updateSource, hlives]
  | sourceDestroy id => rw [apply, apply, of_destroySource, of_destroySource, hlives]
  | oceanSetLevel level | fluidReset => rfl

/-- Whatever happened to a world, how an operation ends is decided by the operation, the size of
the grid and the identifiers under which sources live, as long as one is left for those that pick
one. -/
theorem execute_ends (size : UInt32) (moves : List Move) (op : Operation)
    (hids : op.picksId → ((new size).moveAll moves).HasUnused) :
    let w := (new size).moveAll moves
    op.Ends size w.Lives (w.execute op).1 ∧
      ∀ others, let v := (new size).moveAll others
        (∀ id, v.Lives id ↔ w.Lives id) → (v.execute op).1 = (w.execute op).1 := by
  intro w
  have hw : (w.met op).Orderly size := (orderly_moveAll size moves).met op
  have hmet : op.picksId → (w.met op).HasUnused := by
    rwa [HasUnused, lives_met]
  constructor
  · rw [execute_fst, ← lives_met w op]
    exact hw.ends_apply op hmet
  · intro others v hsame
    have hv : (v.met op).Orderly size := (orderly_moveAll size others).met op
    have hlives : (v.met op).Lives = (w.met op).Lives := by
      rw [lives_met, lives_met]
      exact funext fun id => propext (hsame id)
    rw [execute_fst, execute_fst]
    exact hv.of_apply_eq hw hlives op hmet

theorem execute_ends_picked :
    let create (id : ObjectId) : Operation := .sourceCreate id ⟨0, 0⟩ 1 25 10
    let w := (new 3).moveAll
      [.execute (create .null), .execute (create .null), .execute (.sourceDestroy ⟨1⟩)]
    (create .null).picksId ∧ w.HasUnused ∧
      (create .null).Ends 3 w.Lives (w.execute (create .null)).1 ∧
      (w.execute (create .null)).1 = .success (.created ⟨1⟩) := by
  intro create w
  have hunused : w.HasUnused := ⟨⟨1⟩, by decide +kernel⟩
  exact ⟨rfl, hunused, (execute_ends 3 _ (create .null) fun _ => hunused).1, by decide +kernel⟩

end World

end Terrarium
