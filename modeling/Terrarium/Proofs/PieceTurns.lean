import Terrarium.Proofs.StreamRoundTrip

/-!
Taking in a piece turn by turn. In each turn what is held of a header or payload is filled up with
bytes of the piece; if that completes it, another turn follows. There are turns that take no byte,
since an empty payload is complete before it begins. All the same the turns come to an end, no more
is ever held than the greatest payload, and what is held between two pieces is never complete.
-/
namespace Terrarium

namespace Assembler

/-- Goes on from what is complete: from a header to the payload that it announces, even if that is
empty, and from a payload to the next header. -/
def advance (a : Assembler) : Except WireError (Option Message × Assembler) :=
  match a.stage with
  | .header =>
      (Frame.readHeader a.held.toList).map fun announced =>
        (none, ⟨.payload announced.1 announced.2, #[]⟩)
  | .payload c _ => (Frame.readPayload c a.held.toList).map fun m => (some m, fresh)

/-- What holds of an assembler between two pieces. -/
structure Bounded (a : Assembler) : Prop where
  held : a.held.size < a.stage.size
  pending : 1 ≤ a.pending ∧ a.held.size + a.pending = a.stage.size
  announced : ∀ c size, a.stage = .payload c size → 1 ≤ size ∧ size ≤ Frame.maxPayload

/-- What a caller can do with an assembler. -/
inductive Call where
  | feed (piece : List UInt8)
  | reset

def call (a : Assembler) : Call → Assembler
  | .feed piece => (a.feed piece).2
  | .reset => fresh

/-- What calls one after the other leave behind. -/
def callAll (a : Assembler) (calls : List Call) : Assembler := calls.foldl call a

end Assembler

/-- A piece that is being taken in, between two turns: the bytes that are left of it, and the
messages found in it. -/
structure Intake where
  assembler : Assembler
  rest : List UInt8
  found : Array Message
deriving DecidableEq

namespace Intake

/-- What a piece comes to: its messages or an error, and what is held then. -/
abbrev End := Except WireError (List Message) × Assembler

/-- What is held once the pending bytes have been taken, or fewer if the piece ends before. -/
def filled (i : Intake) : Assembler :=
  ⟨i.assembler.stage, i.assembler.held ++ (i.rest.take i.assembler.pending).toArray⟩

/-- One turn, which leads to another one or to the end. -/
def turn (i : Intake) : Intake ⊕ End :=
  if 0 < i.filled.pending then .inr (.ok i.found.toList, i.filled)
  else
    match i.filled.advance with
    | .error e => .inr (.error e, .fresh)
    | .ok (first, a) =>
        .inl ⟨a, i.rest.drop i.assembler.pending, first.elim i.found i.found.push⟩

/-- So many turns, or fewer if the end comes before. -/
def turns : Nat → Intake → Intake ⊕ End
  | 0, i => .inl i
  | n + 1, i =>
      match i.turn with
      | .inl next => turns n next
      | .inr ended => .inr ended

/-- What a turn relies on: no more is held than is wanted, before and after bytes are taken, and
never more than the greatest payload; and a header that is read has as many bytes as a header
has. -/
structure Safe (i : Intake) : Prop where
  held : i.assembler.held.size ≤ i.assembler.stage.size
  filled : i.filled.held.size ≤ i.filled.stage.size
  bounded : i.filled.held.size ≤ Frame.maxPayload
  header : i.filled.pending = 0 → i.filled.stage = .header →
    i.filled.held.size = Frame.headerSize

/-- What a turn finds: something that is not complete, or a payload without bytes. -/
structure Ready (i : Intake) : Prop where
  size : i.assembler.stage.size ≤ Frame.maxPayload
  waits : i.assembler.Unfinished ∨ ∃ c, i.assembler = ⟨.payload c 0, #[]⟩

/-- How many turns can follow: two for each byte, and one for a payload without bytes. -/
def measure (i : Intake) : Nat := 2 * i.rest.length + if i.assembler.pending = 0 then 1 else 0

/-- What becomes of the rest of a piece if something is complete. -/
def afterComplete (i : Intake) : End :=
  match Assembler.complete i.assembler.stage i.filled.held.toList with
  | .error e => (.error e, .fresh)
  | .ok (first, a) => a.feedAfter (first.elim i.found i.found.push) (i.rest.drop i.assembler.pending)

/-- What becomes of the rest of a piece. -/
def outcome (i : Intake) : End :=
  if i.filled.pending = 0 then i.afterComplete else (.ok i.found.toList, i.filled)

end Intake

namespace Frame

theorem size_le_of_readHeader {s : List UInt8} {c : MessageClass} {size : Nat}
    (h : readHeader s = .ok (c, size)) : size ≤ maxPayload := by
  rw [readHeader] at h
  split at h
  · cases h
  · split at h
    · cases h
    · rename_i hsize
      cases h
      exact Nat.le_of_not_lt hsize

end Frame

namespace Assembler

theorem feedAfter_short {a : Assembler} {s : List UInt8}
    (hshort : a.held.size + s.length < a.stage.size) (found : Array Message) :
    a.feedAfter found s = (.ok found.toList, ⟨a.stage, a.held ++ s.toArray⟩) := by
  induction s generalizing a with
  | nil => rw [feedAfter, Array.append_empty]
  | cons b s ih =>
      have hpush : (a.held.push b).size = a.held.size + 1 := Array.size_push b
      have hlength : (b :: s).length = s.length + 1 := rfl
      have hmore : (a.held.push b).size < a.stage.size := by omega
      have hheld : a.held.push b ++ s.toArray = a.held ++ (b :: s).toArray := by
        simp
      rw [feedAfter_cons, push, if_pos hmore]
      exact (ih (a := ⟨a.stage, a.held.push b⟩) (by dsimp only; omega)).trans (by rw [hheld])

theorem Bounded.unfinished {a : Assembler} (ha : a.Bounded) : a.Unfinished := ha.held

theorem bounded_of_unfinished {a : Assembler} (ha : a.Unfinished)
    (hsize : a.stage.size ≤ Frame.maxPayload) : a.Bounded := by
  have hheld : a.held.size < a.stage.size := ha
  refine ⟨hheld, ?_, ?_⟩
  · rw [pending]
    omega
  · intro c size hstage
    rw [hstage] at hheld hsize
    exact ⟨Nat.zero_lt_of_lt hheld, hsize⟩

theorem bounded_fresh : fresh.Bounded := bounded_of_unfinished unfinished_fresh (by decide)

theorem Bounded.size_le {a : Assembler} (ha : a.Bounded) : a.stage.size ≤ Frame.maxPayload := by
  cases hstage : a.stage with
  | header => decide
  | payload c size => exact (ha.announced c size hstage).2

end Assembler

namespace Intake

variable {i next : Intake}

theorem toList_filled (i : Intake) :
    i.filled.held.toList = i.assembler.held.toList ++ i.rest.take i.assembler.pending := by
  rw [filled, Array.toList_append]

theorem size_filled (i : Intake) :
    i.filled.held.size = i.assembler.held.size + min i.assembler.pending i.rest.length := by
  rw [← Array.length_toList, toList_filled, List.length_append, List.length_take,
    Array.length_toList]

theorem Ready.held_le (h : i.Ready) : i.assembler.held.size ≤ i.assembler.stage.size := by
  rcases h.waits with hunfinished | ⟨c, hempty⟩
  · exact Nat.le_of_lt hunfinished
  · rw [hempty]
    exact Nat.le_refl 0

theorem filled_iff (hheld : i.assembler.held.size ≤ i.assembler.stage.size) :
    i.filled.pending = 0 ↔ i.assembler.pending ≤ i.rest.length := by
  have hsize := i.size_filled
  have hstage : i.filled.stage.size = i.assembler.stage.size := rfl
  rw [Assembler.pending] at hsize ⊢
  rw [Assembler.pending]
  omega

theorem Ready.safe (h : i.Ready) : i.Safe := by
  have hheld := h.held_le
  have hsize := i.size_filled
  have hstage : i.filled.stage.size = i.assembler.stage.size := rfl
  have hbounded := h.size
  rw [Assembler.pending] at hsize
  refine ⟨hheld, by omega, by omega, fun hcomplete hheader => ?_⟩
  have hwanted : i.filled.stage.size = Frame.headerSize := congrArg Stage.size hheader
  rw [Assembler.pending] at hcomplete
  omega

theorem outcome_of_unfinished (hunfinished : i.assembler.Unfinished) :
    i.outcome = i.assembler.feedAfter i.found i.rest := by
  have hheld : i.assembler.held.size ≤ i.assembler.stage.size := Nat.le_of_lt hunfinished
  rw [outcome]
  split
  · rename_i hcomplete
    have hlength : (i.rest.take i.assembler.pending).length = i.assembler.pending :=
      List.length_take_of_le ((filled_iff hheld).mp hcomplete)
    have hfeed := Assembler.feedAfter_append hunfinished hlength i.found
      (i.rest.drop i.assembler.pending)
    rw [List.take_append_drop] at hfeed
    rw [afterComplete, toList_filled]
    exact hfeed.symm
  · rename_i hcomplete
    have hshort : i.rest.length < i.assembler.pending := by
      rw [filled_iff hheld] at hcomplete
      omega
    rw [Assembler.feedAfter_short (by rw [Assembler.pending] at hshort; omega), filled,
      List.take_of_length_le (Nat.le_of_lt hshort)]

theorem outcome_empty (c : MessageClass) (rest : List UInt8) (found : Array Message) :
    outcome ⟨⟨.payload c 0, #[]⟩, rest, found⟩ =
      match Assembler.complete (.payload c 0) [] with
      | .error e => (.error e, .fresh)
      | .ok (first, a) => a.feedAfter (first.elim found found.push) rest := by
  have houtcome : outcome ⟨⟨.payload c 0, #[]⟩, rest, found⟩ =
      afterComplete ⟨⟨.payload c 0, #[]⟩, rest, found⟩ := if_pos (Nat.zero_sub _)
  rw [houtcome, afterComplete, toList_filled]
  rfl

theorem afterComplete_eq (i : Intake) :
    i.afterComplete =
      match i.filled.advance with
      | .error e => (.error e, .fresh)
      | .ok (first, a) =>
          outcome ⟨a, i.rest.drop i.assembler.pending, first.elim i.found i.found.push⟩ := by
  have hstage : i.filled.stage = i.assembler.stage := rfl
  rw [afterComplete, Assembler.advance, hstage]
  cases i.assembler.stage with
  | header =>
      cases hread : Frame.readHeader i.filled.held.toList with
      | error e => simp only [Assembler.complete, hread, Except.map]
      | ok announced =>
          obtain ⟨c, size⟩ := announced
          cases size with
          | zero =>
              -- The byte that completes the header has the empty payload read as well.
              have hboth : Assembler.complete .header i.filled.held.toList =
                  Assembler.complete (.payload c 0) [] := by
                simp only [Assembler.complete, hread]
              rw [hboth]
              exact (outcome_empty c _ i.found).symm
          | succ size =>
              have honly : Assembler.complete .header i.filled.held.toList =
                  .ok (none, ⟨.payload c (size + 1), #[]⟩) := by
                simp only [Assembler.complete, hread]
              have hmore : Assembler.Unfinished ⟨.payload c (size + 1), #[]⟩ := Nat.succ_pos size
              rw [honly]
              exact (@outcome_of_unfinished ⟨_, _, _⟩ hmore).symm
  | payload c size =>
      cases hread : Frame.readPayload c i.filled.held.toList with
      | error e => simp only [Assembler.complete, hread, Except.map]
      | ok m =>
          simp only [Assembler.complete, hread, Except.map]
          exact (@outcome_of_unfinished ⟨_, _, _⟩ Assembler.unfinished_fresh).symm

/-- What follows on something complete waits for bytes, unless it is a payload without any, and that
comes after a header. -/
theorem Ready.advance (h : i.Ready) {first : Option Message} {a : Assembler}
    (hadvance : i.filled.advance = .ok (first, a)) (rest : List UInt8) (found : Array Message) :
    Ready ⟨a, rest, found⟩ ∧ (i.assembler.pending = 0 → a.pending ≠ 0) := by
  have hstage : i.filled.stage = i.assembler.stage := rfl
  rw [Assembler.advance, hstage] at hadvance
  cases hkind : i.assembler.stage with
  | header =>
      have hpending : i.assembler.pending ≠ 0 := by
        rcases h.waits with hunfinished | ⟨c, hempty⟩
        · exact Nat.ne_of_gt (Nat.sub_pos_of_lt hunfinished)
        · rw [hempty] at hkind
          cases hkind
      rw [hkind] at hadvance
      cases hread : Frame.readHeader i.filled.held.toList with
      | error e =>
          rw [hread] at hadvance
          cases hadvance
      | ok announced =>
          obtain ⟨c, size⟩ := announced
          rw [hread] at hadvance
          cases hadvance
          refine ⟨⟨Frame.size_le_of_readHeader hread, ?_⟩, fun hnone => absurd hnone hpending⟩
          cases size with
          | zero => exact .inr ⟨c, rfl⟩
          | succ size => exact .inl (Nat.succ_pos size)
  | payload c size =>
      rw [hkind] at hadvance
      cases hread : Frame.readPayload c i.filled.held.toList with
      | error e =>
          simp only [hread, Except.map] at hadvance
          cases hadvance
      | ok m =>
          simp only [hread, Except.map] at hadvance
          cases hadvance
          exact ⟨⟨Assembler.bounded_fresh.size_le, .inl Assembler.unfinished_fresh⟩, fun _ => by decide⟩

/-- A turn that goes on has fewer turns after it than the one before. -/
theorem Ready.measure_lt (h : i.Ready) (hcomplete : i.filled.pending = 0)
    (hrest : next.rest = i.rest.drop i.assembler.pending)
    (hnext : i.assembler.pending = 0 → next.assembler.pending ≠ 0) : next.measure < i.measure := by
  have hbytes := (filled_iff h.held_le).mp hcomplete
  have hlength : next.rest.length = i.rest.length - i.assembler.pending := by
    rw [hrest, List.length_drop]
  rw [measure, measure, hlength]
  by_cases hempty : i.assembler.pending = 0
  · rw [if_pos hempty, if_neg (hnext hempty)]
    omega
  · rw [if_neg hempty]
    split <;> omega

theorem ready_of_bounded {a : Assembler} (ha : a.Bounded) (piece : List UInt8)
    (found : Array Message) : Ready ⟨a, piece, found⟩ := ⟨ha.size_le, .inl ha.unfinished⟩

/-- A turn that goes on keeps the outcome and comes nearer to it; one that does not has it. -/
theorem Ready.turn_cases (h : i.Ready) :
    (∃ next, i.turn = .inl next ∧ next.Ready ∧ next.measure < i.measure ∧
      next.outcome = i.outcome) ∨
    (i.turn = .inr i.outcome ∧ i.outcome.2.Bounded) := by
  by_cases hcomplete : i.filled.pending = 0
  · have hturn : i.turn = match i.filled.advance with
        | .error e => .inr (.error e, .fresh)
        | .ok (first, a) =>
            .inl ⟨a, i.rest.drop i.assembler.pending, first.elim i.found i.found.push⟩ :=
      if_neg (Nat.not_lt.mpr (Nat.le_of_eq hcomplete))
    have houtcome : i.outcome = i.afterComplete := if_pos hcomplete
    rw [hturn, houtcome, afterComplete_eq]
    cases hadvance : i.filled.advance with
    | error e => exact .inr ⟨rfl, Assembler.bounded_fresh⟩
    | ok step =>
        obtain ⟨first, a⟩ := step
        obtain ⟨hready, hpending⟩ := h.advance hadvance (i.rest.drop i.assembler.pending)
          (first.elim i.found i.found.push)
        exact .inl ⟨_, rfl, hready, h.measure_lt hcomplete rfl hpending, rfl⟩
  · have hmore : 0 < i.filled.pending := Nat.pos_of_ne_zero hcomplete
    have hturn : i.turn = .inr (.ok i.found.toList, i.filled) := if_pos hmore
    have houtcome : i.outcome = (.ok i.found.toList, i.filled) := if_neg hcomplete
    rw [hturn, houtcome]
    exact .inr ⟨rfl, Assembler.bounded_of_unfinished (Nat.lt_of_sub_pos hmore) h.size⟩

theorem Ready.of_turn (h : i.Ready) (hturn : i.turn = .inl next) :
    next.Ready ∧ next.measure < i.measure ∧ next.outcome = i.outcome := by
  rcases h.turn_cases with ⟨next', hturn', hnext⟩ | ⟨hturn', -⟩
  · obtain rfl := Sum.inl.inj (hturn.symm.trans hturn')
    exact hnext
  · exact nomatch hturn.symm.trans hturn'

/-- There is an end after at most as many turns as the measure says, and one. -/
theorem Ready.exists_turns (h : i.Ready) :
    ∃ n ≤ i.measure + 1, i.turns n = .inr i.outcome ∧ i.outcome.2.Bounded := by
  induction hmeasure : i.measure using Nat.strong_induction_on generalizing i with
  | h k ih =>
      rcases h.turn_cases with ⟨next, hturn, hready, hlt, houtcome⟩ | ⟨hturn, hbounded⟩
      · obtain ⟨n, hn, hturns, hbounded⟩ := ih next.measure (hmeasure ▸ hlt) hready rfl
        refine ⟨n + 1, by omega, ?_⟩
        rw [turns, hturn, ← houtcome]
        exact ⟨hturns, hbounded⟩
      · refine ⟨1, by omega, ?_, hbounded⟩
        rw [turns, hturn]

theorem Ready.turns (h : i.Ready) {n : Nat} (hturns : i.turns n = .inl next) : next.Ready := by
  induction n generalizing i with
  | zero =>
      obtain rfl := Sum.inl.inj hturns
      exact h
  | succ n ih =>
      rw [Intake.turns] at hturns
      cases hturn : i.turn with
      | inl after =>
          rw [hturn] at hturns
          exact ih (h.of_turn hturn).1 hturns
      | inr ended =>
          rw [hturn] at hturns
          cases hturns

end Intake

namespace Assembler

variable {a : Assembler}

theorem Bounded.exists_turns (ha : a.Bounded) (piece : List UInt8) :
    ∃ n ≤ 2 * piece.length + 1, (Intake.mk a piece #[]).turns n = .inr (a.feed piece) ∧
      (a.feed piece).2.Bounded := by
  have hunfinished : (Intake.mk a piece #[]).assembler.Unfinished := ha.unfinished
  have hmeasure : (Intake.mk a piece #[]).measure = 2 * piece.length :=
    congrArg (2 * piece.length + ·) (if_neg (Nat.ne_of_gt (Nat.sub_pos_of_lt hunfinished)))
  have hturns := (Intake.ready_of_bounded ha piece #[]).exists_turns
  rwa [hmeasure, Intake.outcome_of_unfinished hunfinished] at hturns

theorem Bounded.call (ha : a.Bounded) (c : Call) : (a.call c).Bounded := by
  cases c with
  | feed piece =>
      obtain ⟨-, -, -, hfed⟩ := ha.exists_turns piece
      exact hfed
  | reset => exact bounded_fresh

theorem Bounded.callAll (ha : a.Bounded) (calls : List Call) : (a.callAll calls).Bounded := by
  induction calls generalizing a with
  | nil => exact ha
  | cons c calls ih => exact ih (ha.call c)

/-- After any calls an assembler holds less than it waits for, and what it waits for is no more than
the greatest payload. Then the taking in of any piece comes to an end, after at most two turns for
each byte and one more, and every turn finds what it relies on. -/
theorem callAll_bounded (calls : List Call) :
    let a := fresh.callAll calls
    a.Bounded ∧ ∀ piece,
      (∃ n ≤ 2 * piece.length + 1, (Intake.mk a piece #[]).turns n = .inr (a.feed piece)) ∧
      ∀ n i, (Intake.mk a piece #[]).turns n = .inl i → i.Safe := by
  intro a
  have ha : a.Bounded := bounded_fresh.callAll calls
  refine ⟨ha, fun piece => ⟨?_, fun n i hturns => ?_⟩⟩
  · obtain ⟨n, hn, hturns, -⟩ := ha.exists_turns piece
    exact ⟨n, hn, hturns⟩
  · exact ((Intake.ready_of_bounded ha piece #[]).turns hturns).safe

/-- A header announces a payload without bytes. The turn after it takes no byte and finds nothing to
read, and with that the piece is at its end. -/
theorem callAll_bounded_empty :
    let a := fresh.callAll [.feed [1], .reset, .feed (List.replicate 7 0)]
    let start := Intake.mk a (List.replicate 9 0) #[]
    let next := Intake.mk ⟨.payload .link 0, #[]⟩ (List.replicate 8 0) #[]
    a.pending = 1 ∧ start.turns 1 = .inl next ∧ next.assembler.pending = 0 ∧ next.Safe ∧
    start.turns 2 = .inr (.error .malformed, fresh) ∧
    ∃ n ≤ 19, start.turns n = .inr (a.feed (List.replicate 9 0)) := by
  intro a start next
  obtain ⟨-, hpieces⟩ := callAll_bounded [.feed [1], .reset, .feed (List.replicate 7 0)]
  obtain ⟨hturns, hsafe⟩ := hpieces (List.replicate 9 0)
  have hnext : start.turns 1 = .inl next := by decide +kernel
  exact ⟨by decide +kernel, hnext, rfl, hsafe 1 next hnext, by decide +kernel, hturns⟩

end Assembler

end Terrarium
