import Terrarium.Proofs.MessageRoundTrip
import Terrarium.Proofs.PieceReading

namespace Terrarium

namespace Frame

theorem length_littleEndian (width n : Nat) : (littleEndian width n).length = width := by
  induction width generalizing n with
  | zero => rfl
  | succ width ih => rw [littleEndian, List.length_cons, ih]

theorem ofLittleEndian_littleEndian {width n : Nat} (hn : n < 256 ^ width) :
    ofLittleEndian (littleEndian width n) = n := by
  induction width generalizing n with
  | zero => exact (Nat.lt_one_iff.mp hn).symm
  | succ width ih =>
      have hquotient : n / 256 < 256 ^ width := by
        rw [Nat.pow_succ] at hn
        exact Nat.div_lt_of_lt_mul (by rwa [Nat.mul_comm])
      rw [littleEndian, ofLittleEndian, ih hquotient, UInt8.toNat_ofNat']
      exact Nat.mod_add_div n 256

theorem length_header (c : MessageClass) (size : Nat) : (header c size).length = headerSize := by
  rw [header, List.length_append, length_littleEndian, length_littleEndian]
  rfl

theorem readHeader_header (c : MessageClass) {size : Nat} (hsize : size ≤ maxPayload) :
    readHeader (header c size) = .ok (c, size) := by
  have hclass : (header c size).take 4 = littleEndian 4 c.code.toNat :=
    List.take_left' (length_littleEndian 4 _)
  have hrest : (header c size).drop 4 = littleEndian 4 size :=
    List.drop_left' (length_littleEndian 4 _)
  have hwhole : (littleEndian 4 size).take 4 = littleEndian 4 size :=
    List.take_of_length_le (Nat.le_of_eq (length_littleEndian 4 size))
  have hcode : MessageClass.ofCode? c.code = some c := by cases c <;> rfl
  have hlt : size < 256 ^ 4 := Nat.lt_of_le_of_lt hsize (by decide)
  rw [readHeader, hclass, hrest, hwhole, ofLittleEndian_littleEndian c.code.toNat_lt,
    ofLittleEndian_littleEndian hlt, UInt32.ofNat_toNat, hcode]
  exact if_neg (Nat.not_lt.mpr hsize)

end Frame

namespace Assembler

theorem feedAfter_append {a : Assembler} (ha : a.Unfinished) {front : List UInt8}
    (hfront : front.length = a.pending) (found : Array Message) (s : List UInt8) :
    a.feedAfter found (front ++ s) =
      match complete a.stage (a.held.toList ++ front) with
      | .error e => (.error e, fresh)
      | .ok (first, a') => a'.feedAfter (first.elim found found.push) s := by
  induction front generalizing a with
  | nil =>
      have hpending : 0 < a.pending := Nat.sub_pos_of_lt ha
      rw [← hfront] at hpending
      exact absurd hpending (Nat.lt_irrefl 0)
  | cons b front ih =>
      obtain ⟨stage, held⟩ := a
      have hlength : front.length + 1 = stage.size - held.size := hfront
      have hheld : (held.push b).toList ++ front = held.toList ++ b :: front := by
        rw [Array.toList_push, List.append_assoc, List.singleton_append]
      have hpush : (held.push b).size = held.size + 1 := Array.size_push b
      rw [List.cons_append, feedAfter_cons, push, ← hheld]
      by_cases hmore : (held.push b).size < stage.size
      · simp only [if_pos hmore]
        have hrest : front.length = pending ⟨stage, held.push b⟩ := by
          change front.length = stage.size - (held.push b).size
          omega
        exact ih hmore hrest
      · simp only [if_neg hmore]
        have hlast : front = [] := List.eq_nil_of_length_eq_zero (by omega)
        rewrite [hlast, List.append_nil, List.nil_append]
        rfl

theorem complete_header (c : MessageClass) {size : Nat} (hpos : 0 < size)
    (hsize : size ≤ Frame.maxPayload) :
    complete .header (Frame.header c size) = .ok (none, ⟨.payload c size, #[]⟩) := by
  have hread := Frame.readHeader_header c hsize
  cases size with
  | zero => exact absurd hpos (Nat.lt_irrefl 0)
  | succ size => simp only [complete, hread]

end Assembler

namespace Message

theorem frame_of_le {m : Message} (hm : m.payload.length ≤ Frame.maxPayload) :
    m.frame = .ok (Frame.header m.class m.payload.length ++ m.payload) :=
  if_neg (Nat.not_lt.mpr hm)

theorem frame_of_lt {m : Message} (hm : Frame.maxPayload < m.payload.length) :
    m.frame = .error (.tooLarge m.payload.length) :=
  if_pos hm

theorem readPayload_payload {m : Message} (hm : m.payload.length ≤ Frame.maxPayload) :
    Frame.readPayload m.class m.payload = .ok m := by
  rw [Frame.readPayload, ofPayload?_payload (Nat.lt_of_le_of_lt hm (by decide))]

theorem payload_pos {m : Message} (hm : m.payload.length ≤ Frame.maxPayload) :
    0 < m.payload.length := by
  have hread := ofPayload?_payload (Nat.lt_of_le_of_lt hm (by decide))
  refine List.length_pos_iff.mpr fun hempty => ?_
  rw [hempty] at hread
  cases m <;> cases hread

theorem feedAfter_frame {m : Message} (hm : m.payload.length ≤ Frame.maxPayload)
    (found : Array Message) (s : List UInt8) :
    Assembler.fresh.feedAfter found (Frame.header m.class m.payload.length ++ m.payload ++ s) =
      Assembler.fresh.feedAfter (found.push m) s := by
  have hunfinished : Assembler.Unfinished ⟨.payload m.class m.payload.length, #[]⟩ := payload_pos hm
  have hheader : Assembler.complete Assembler.fresh.stage (Assembler.fresh.held.toList ++
      Frame.header m.class m.payload.length) = .ok (none, ⟨.payload m.class m.payload.length, #[]⟩) :=
    Assembler.complete_header m.class hunfinished hm
  have hpayload : Assembler.complete (.payload m.class m.payload.length) ([] ++ m.payload) =
      .ok (some m, Assembler.fresh) := by
    rw [Assembler.complete, List.nil_append, readPayload_payload hm]
    rfl
  rw [List.append_assoc,
    Assembler.feedAfter_append Assembler.unfinished_fresh (Frame.length_header m.class _), hheader]
  dsimp only
  rw [Assembler.feedAfter_append hunfinished rfl]
  simp only [hpayload]
  rfl

theorem feedAfter_frames {messages : List Message}
    (hall : ∀ m ∈ messages, m.payload.length ≤ Frame.maxPayload) (found : Array Message) :
    Assembler.fresh.feedAfter found
      (messages.flatMap fun m => Frame.header m.class m.payload.length ++ m.payload) =
      (.ok (found.toList ++ messages), Assembler.fresh) := by
  induction messages generalizing found with
  | nil => rw [List.flatMap_nil, List.append_nil, Assembler.feedAfter]
  | cons m messages ih =>
      rw [List.flatMap_cons, feedAfter_frame (hall m List.mem_cons_self),
        ih fun m hm => hall m (List.mem_cons_of_mem _ hm), Array.toList_push, List.append_assoc,
        List.singleton_append]

theorem mapM_frame {messages : List Message} :
    match messages.mapM frame with
    | .error e => ∃ m ∈ messages, m.frame = .error e
    | .ok frames => (∀ m ∈ messages, m.payload.length ≤ Frame.maxPayload) ∧
        frames.flatten =
          messages.flatMap fun m => Frame.header m.class m.payload.length ++ m.payload := by
  induction messages with
  | nil => exact ⟨fun m hm => absurd hm List.not_mem_nil, rfl⟩
  | cons m messages ih =>
      rw [List.mapM_cons]
      by_cases hm : m.payload.length ≤ Frame.maxPayload
      · rw [frame_of_le hm]
        cases hrest : messages.mapM frame with
        | error e =>
            rw [hrest] at ih
            obtain ⟨m', hm', he⟩ := ih
            exact ⟨m', List.mem_cons_of_mem m hm', he⟩
        | ok frames =>
            rw [hrest] at ih
            obtain ⟨hall, hframes⟩ := ih
            refine ⟨List.forall_mem_cons.mpr ⟨hm, hall⟩, ?_⟩
            rw [List.flatMap_cons, ← hframes]
            rfl
      · rw [frame_of_lt (Nat.lt_of_not_le hm)]
        exact ⟨m, List.mem_cons_self, frame_of_lt (Nat.lt_of_not_le hm)⟩

/-- A message has a frame unless its payload is too large, which is the only error. The payload of the
frame gives the message back, equal in every bit of its numbers, where what is no number has one
pattern. The frames of any messages that have one, put together, give the messages back in their
order, and leave an assembler that waits for a whole header. -/
theorem wire_round_trip :
    (∀ m : Message,
      match m.frame with
      | .error e => Frame.maxPayload < m.payload.length ∧ e = .tooLarge m.payload.length
      | .ok s => m.payload.length ≤ Frame.maxPayload ∧
          ofPayload? m.class (s.drop Frame.headerSize) = some m) ∧
    ∀ messages : List Message,
      match messages.mapM frame with
      | .error e => ∃ m ∈ messages, m.frame = .error e
      | .ok frames => Assembler.fresh.feed frames.flatten = (.ok messages, Assembler.fresh) := by
  refine ⟨fun m => ?_, fun messages => ?_⟩
  · by_cases hm : m.payload.length ≤ Frame.maxPayload
    · rw [frame_of_le hm]
      refine ⟨hm, ?_⟩
      rw [List.drop_left' (Frame.length_header _ _)]
      exact ofPayload?_payload (Nat.lt_of_le_of_lt hm (by decide))
    · rw [frame_of_lt (Nat.lt_of_not_le hm)]
      exact ⟨Nat.lt_of_not_le hm, rfl⟩
  · have hframes := @mapM_frame messages
    cases hall : messages.mapM frame with
    | error e =>
        rw [hall] at hframes
        exact hframes
    | ok frames =>
        rw [hall] at hframes
        obtain ⟨hfit, hflatten⟩ := hframes
        dsimp only
        rw [Assembler.feed, hflatten, feedAfter_frames hfit]
        rfl

end Message

end Terrarium
