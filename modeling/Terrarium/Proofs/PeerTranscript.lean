import Terrarium.Proofs.StreamDelivery

namespace Terrarium

def Message.command? : Message → Option Command
  | .command c => some c
  | _ => none

/-- The answer to a message, if it is a ping. -/
def Message.pong? : Message → Option Message
  | .link (.ping seq) => some (.link (.pong seq))
  | _ => none

def Simulation.submitAll (s : Simulation) (channel : Channel) (commands : List Command) :
    Simulation :=
  commands.foldl (fun s c => s.submit c channel) s

/-- A header for a message, and its payload. -/
def Message.bytes (m : Message) : List UInt8 :=
  Frame.header m.class m.payload.length ++ m.payload

/-- A sink with more written to it. -/
def Sink.writeAll (s : Sink) (frames : List (List UInt8)) : Sink :=
  { s with written := frames.reverse ++ s.written }

theorem Sink.writeAll_append (s : Sink) (frames more : List (List UInt8)) :
    (s.writeAll frames).writeAll more = s.writeAll (frames ++ more) := by
  simp [writeAll]

theorem Simulation.submitAll_append (s : Simulation) (channel : Channel)
    (commands more : List Command) :
    s.submitAll channel (commands ++ more) =
      (s.submitAll channel commands).submitAll channel more :=
  List.foldl_append

namespace Message

theorem frame_pong (seq : UInt64) :
    (link (.pong seq)).frame = .ok (link (.pong seq)).bytes := by
  have hfield : ∀ f ∈ [("seq", Cbor.writeUnsigned seq.toNat)], f.1.length ≤ 3 ∧ f.2.length ≤ 9 :=
    List.forall_mem_singleton.mpr ⟨(by decide : "seq".length ≤ 3), Cbor.length_writeUnsigned_le _⟩
  have hsize : (link (.pong seq)).payload.length ≤ 78 + (9 + 1 * (9 + 4 * 3 + 9)) :=
    Cbor.length_writeChoice_le (by decide) (Cbor.length_writeRecord_le hfield)
  exact frame_of_le (hsize.trans (by decide))

theorem map_frame_pongs (messages : List Message) :
    (messages.filterMap pong?).map frame = ((messages.filterMap pong?).map bytes).map .ok := by
  rw [List.map_map, List.map_inj_left]
  intro pong hpong
  obtain ⟨m, -, hm⟩ := List.mem_filterMap.mp hpong
  cases m with
  | link signal =>
      cases signal with
      | ping seq =>
          obtain rfl := Option.some.inj hm
          exact frame_pong seq
      | pong seq => simp [pong?] at hm
  | _ => simp [pong?] at hm

end Message

namespace Connection

/-- What a call meets: the simulation and the sink as they have come to be, and a piece of the
peer's bytes. -/
structure Visit where
  simulation : Simulation
  sink : Sink
  piece : List UInt8

/-- What a call leaves: its result, and the simulation and the sink after it. -/
structure Left where
  result : Except ServerError Nat
  simulation : Simulation
  sink : Sink

/-- Calls in turn. What the connection holds of a frame stays between them, while the simulation
and the sink change in any way. -/
def receiveAll (c : Connection) : List Visit → List Left
  | [] => []
  | v :: visits =>
      let (result, c, simulation) := { c with sink := v.sink }.receive v.simulation v.piece
      ⟨result, simulation, c.sink⟩ :: c.receiveAll visits

/-- What a call leaves that completes these messages: it counts them, has submitted the commands
among them and written a pong for each ping, both in their order, and nothing else came of them. -/
structure Left.Takes (left : Left) (channel : Channel) (v : Visit) (messages : List Message) :
    Prop where
  counted : left.result = .ok messages.length
  submitted : left.simulation =
    v.simulation.submitAll channel (messages.filterMap Message.command?)
  answered : ∃ frames, (messages.filterMap Message.pong?).map Message.frame = frames.map .ok ∧
    left.sink = v.sink.writeAll frames

/-- What calls leave that complete these messages between them. -/
inductive Transcript (channel : Channel) : List Visit → List Left → List Message → Prop where
  | nil : Transcript channel [] [] []
  | cons {v : Visit} {left : Left} {now later : List Message} {visits : List Visit}
      {lefts : List Left} (hnow : left.Takes channel v now)
      (hlater : Transcript channel visits lefts later) :
      Transcript channel (v :: visits) (left :: lefts) (now ++ later)

variable {c : Connection} {sim : Simulation} {messages : List Message}

theorem send_pong {sink : Sink} (hworks : sink.fault = none) (seq : UInt64) :
    send sink (.link (.pong seq)) = .ok (sink.writeAll [(Message.link (.pong seq)).bytes]) := by
  rw [send, Message.frame_pong]
  simp [Sink.write, Sink.writeAll, hworks]

theorem handle_eq (c : Connection) (sim : Simulation) (messages : List Message)
    (hworks : c.sink.fault = none) :
    c.handle sim messages =
      (.ok (), { c with
          sink := c.sink.writeAll ((messages.filterMap Message.pong?).map Message.bytes) },
        sim.submitAll c.channel (messages.filterMap Message.command?)) := by
  induction messages generalizing c sim with
  | nil => rfl
  | cons m messages ih =>
      cases m with
      | link signal =>
          cases signal with
          | ping seq =>
              rw [handle, send_pong hworks]
              refine (ih { c with sink := c.sink.writeAll _ } sim hworks).trans ?_
              dsimp only
              rw [Sink.writeAll_append]
              rfl
          | pong seq => exact ih c sim hworks
      | command command => exact ih c (sim.submit command c.channel) hworks
      | response r => exact ih c sim hworks

theorem receive_ok {a : Assembler} {piece : List UInt8} (hworks : c.sink.fault = none)
    (hfeed : c.assembler.feed piece = (.ok messages, a)) :
    c.receive sim piece =
      (.ok messages.length, { c with
          assembler := a
          sink := c.sink.writeAll ((messages.filterMap Message.pong?).map Message.bytes) },
        sim.submitAll c.channel (messages.filterMap Message.command?)) := by
  rw [receive, hfeed]
  dsimp only
  rw [handle_eq { c with assembler := a } sim messages hworks]
  rfl

theorem receive_error {e : WireError} {a : Assembler} {piece : List UInt8}
    (hfeed : c.assembler.feed piece = (.error e, a)) :
    c.receive sim piece = (.error (.wire e), { c with assembler := a }, sim) := by
  rw [receive, hfeed]

/-- What calls in turn leave, by how the reading of the whole stream goes. -/
def Leaves (c : Connection) (visits : List Visit) : List Message × Frame.Ending → Prop
  | (messages, .waiting _) => Transcript c.channel visits (c.receiveAll visits) messages
  | (messages, .failed e rest) =>
      ∃ (before : List Visit) (v : Visit) (after : List Visit) (front back : List UInt8)
        (lefts : List Left) (earlier lost : List Message) (needed : Nat),
        visits = before ++ v :: after ∧ v.piece = front ++ back ∧ front ≠ [] ∧
        rest = back ++ (after.map (·.piece)).flatten ∧ messages = earlier ++ lost ∧
        c.assembler.readAll (before.map (·.piece)).flatten = (earlier, .waiting needed) ∧
        Transcript c.channel before lefts earlier ∧
        c.receiveAll visits =
          lefts ++ ⟨.error (.wire e), v.simulation, v.sink⟩ :: (new c.channel).receiveAll after

theorem receiveAll_withSink (c : Connection) (sink : Sink) (visits : List Visit) :
    { c with sink }.receiveAll visits = c.receiveAll visits := by
  cases visits <;> rfl

/-- A call that completes messages leaves what it should, and the others go on from there. -/
theorem exists_receiveAll_ok {a : Assembler} {v : Visit} (hworks : v.sink.fault = none)
    (hfeed : c.assembler.feed v.piece = (.ok messages, a)) (visits : List Visit) :
    ∃ left : Left, left.Takes c.channel v messages ∧
      c.receiveAll (v :: visits) = left :: { c with assembler := a }.receiveAll visits := by
  refine ⟨⟨_, _, v.sink.writeAll _⟩, ⟨rfl, rfl, _, Message.map_frame_pongs messages, rfl⟩, ?_⟩
  rw [receiveAll, receive_ok (c := { c with sink := v.sink }) hworks hfeed]
  exact congrArg (List.cons _) (receiveAll_withSink { c with assembler := a } _ visits)

theorem receiveAll_error {e : WireError} {v : Visit}
    (hfeed : c.assembler.feed v.piece = (.error e, .fresh)) (visits : List Visit) :
    c.receiveAll (v :: visits) =
      ⟨.error (.wire e), v.simulation, v.sink⟩ :: (new c.channel).receiveAll visits := by
  rw [receiveAll, receive_error (c := { c with sink := v.sink }) hfeed]
  exact congrArg (List.cons _) (receiveAll_withSink (new c.channel) _ visits)

theorem leaves_readAll (hunfinished : c.assembler.Unfinished) {visits : List Visit}
    (hworks : ∀ v ∈ visits, v.sink.fault = none) :
    c.Leaves visits (c.assembler.readAll (visits.map (·.piece)).flatten) := by
  induction visits generalizing c with
  | nil =>
      rw [List.map_nil, List.flatten_nil, Assembler.readAll_nil hunfinished]
      exact .nil
  | cons v visits ih =>
      obtain ⟨hv, hvisits⟩ := List.forall_mem_cons.mp hworks
      rw [List.map_cons, List.flatten_cons]
      rcases Assembler.readAll_feed hunfinished v.piece (visits.map (·.piece)).flatten with
        ⟨now, a, hfeed, ha, hread⟩ | ⟨e, lost, front, back, hfeed, hpiece, hfront, hread⟩
      · have hrest := ih (c := { c with assembler := a }) ha hvisits
        obtain ⟨left, hleft, hreceive⟩ := exists_receiveAll_ok hv hfeed visits
        rcases hreads : a.readAll (visits.map (·.piece)).flatten with ⟨later, needed | ⟨e, rest⟩⟩
        · rw [hreads] at hread hrest
          rw [hread, Leaves, hreceive]
          exact .cons hleft hrest
        · rw [hreads] at hread hrest
          obtain ⟨before, w, after, front, back, lefts, earlier, lost, needed, rfl, hpiece, hfront,
            hrest, rfl, hbefore, hlefts, hafter⟩ := hrest
          rw [hread, Leaves, hreceive, hafter]
          refine ⟨v :: before, w, after, front, back, left :: lefts, now ++ earlier, lost, needed,
            rfl, hpiece, hfront, hrest, (List.append_assoc now earlier lost).symm, ?_,
            .cons hleft hlefts, rfl⟩
          rw [List.map_cons, List.flatten_cons,
            (Assembler.readAll_feed_ok hunfinished hfeed _).2]
          dsimp only at hbefore
          rw [hbefore]
      · rw [hread]
        exact ⟨[], v, visits, front, back, [], [], lost, _, rfl, hpiece, hfront, rfl, rfl,
          Assembler.readAll_nil hunfinished, .nil, receiveAll_error hfeed visits⟩

theorem handle_keeps (c : Connection) (sim : Simulation) (messages : List Message) :
    (c.handle sim messages).2.1.channel = c.channel ∧
      (c.handle sim messages).2.2.posted = sim.posted := by
  induction messages generalizing c sim with
  | nil => exact ⟨rfl, rfl⟩
  | cons m messages ih =>
      cases m with
      | link signal =>
          cases signal with
          | ping seq =>
              rw [handle]
              split
              · exact ⟨rfl, rfl⟩
              · exact ih _ sim
          | pong seq => exact ih c sim
      | command command => exact ih c (sim.submit command c.channel)
      | response r => exact ih c sim

theorem receive_keeps (c : Connection) (sim : Simulation) (piece : List UInt8) :
    (c.receive sim piece).2.1.channel = c.channel ∧
      (c.receive sim piece).2.2.posted = sim.posted := by
  rw [receive]
  dsimp only
  split
  · exact ⟨rfl, rfl⟩
  · exact handle_keeps _ sim _

end Connection

end Terrarium
