import Terrarium.Proofs.DirectDelivery
import Terrarium.Proofs.ResponseSize
import Terrarium.Proofs.SourceOrder
import Terrarium.Proofs.StreamRoundTrip
import Terrarium.Server.Connection

/-!
Delivery over streams of bytes. A client's commands reach a connection as frames, and the responses
come back as frames; both ways the bytes arrive in order, in pieces that are cut anywhere, while
everything else goes on. What one way has taken of its messages has arrived, or stands whole in the
bytes that are still to come and what the assembler holds of a frame. So the calls come to be those
of a client in the same program as the simulation.
-/
namespace Terrarium

variable {κ : Type}

/-- Whether a message has a frame. -/
def Message.Fits (m : Message) : Prop := m.payload.length ≤ Frame.maxPayload

instance : DecidablePred Message.Fits := fun m =>
  inferInstanceAs (Decidable (m.payload.length ≤ Frame.maxPayload))

namespace Assembler

/-- What an assembler holds and the bytes after it are messages, and the last one ends with the
bytes. -/
structure Carries (a : Assembler) (bytes : List UInt8) (messages : List Message) : Prop where
  unfinished : a.Unfinished
  reads : ∀ s, a.readAll (bytes ++ s) = (messages ++ (Frame.readAll s).1, (Frame.readAll s).2)

theorem carries_fresh : fresh.Carries [] [] := ⟨unfinished_fresh, fun _ => rfl⟩

theorem readAll_frame {m : Message} (hm : m.Fits) (s : List UInt8) :
    Frame.readAll (Frame.header m.class m.payload.length ++ m.payload ++ s) =
      (m :: (Frame.readAll s).1, (Frame.readAll s).2) := by
  rw [List.append_assoc, Frame.readAll_append (Frame.length_header m.class _),
    Frame.readHeader_header m.class hm]
  dsimp only
  rw [readBody_append rfl, Message.readPayload_payload hm]

theorem readAll_feed_ok {a a' : Assembler} {piece : List UInt8} {now : List Message}
    (ha : a.Unfinished) (hfeed : a.feed piece = (.ok now, a')) (s : List UInt8) :
    a'.Unfinished ∧ a.readAll (piece ++ s) = (now ++ (a'.readAll s).1, (a'.readAll s).2) := by
  rcases readAll_feed ha piece s with
    ⟨found, a'', hfound, hread⟩ | ⟨e, found, front, back, hfound, -⟩
  · rw [hfeed] at hfound
    cases hfound
    exact hread
  · rw [hfeed] at hfound
    cases hfound

namespace Carries

variable {a : Assembler} {bytes piece rest : List UInt8} {messages : List Message}

theorem append (h : a.Carries bytes messages) {m : Message} (hm : m.Fits) :
    a.Carries (bytes ++ (Frame.header m.class m.payload.length ++ m.payload))
      (messages ++ [m]) where
  unfinished := h.unfinished
  reads s := by
    rw [List.append_assoc, h.reads, readAll_frame hm, List.append_assoc]
    rfl

theorem feed (h : a.Carries (piece ++ rest) messages) :
    ∃ now later a', messages = now ++ later ∧ a.feed piece = (.ok now, a') ∧
      a'.Carries rest later := by
  have hwhole (s : List UInt8) : a.readAll (piece ++ (rest ++ s)) =
      (messages ++ (Frame.readAll s).1, (Frame.readAll s).2) := by
    rw [← List.append_assoc]
    exact h.reads s
  have hend : Frame.readAll [] = ([], .waiting Frame.headerSize) :=
    Frame.readAll_of_short (by decide)
  -- A piece with an error would fail the reading of the whole, which ends where the bytes end.
  rcases readAll_feed h.unfinished piece (rest ++ []) with
    ⟨now, a', hfeed, ha', hread⟩ | ⟨e, now, front, back, -, -, -, hread⟩
  · have hmessages : messages = now ++ (a'.readAll (rest ++ [])).1 := by
      have hfirst := congrArg Prod.fst ((hwhole []).symm.trans hread)
      rwa [hend, List.append_nil] at hfirst
    refine ⟨now, _, a', hmessages, hfeed, ha', fun s => ?_⟩
    have hrest := (readAll_feed_ok h.unfinished hfeed (rest ++ s)).2.symm.trans (hwhole s)
    rw [hmessages, List.append_assoc] at hrest
    obtain ⟨hfound, hending⟩ := Prod.mk.inj hrest
    exact Prod.ext (List.append_cancel_left hfound) hending
  · have hfailed := congrArg Prod.snd ((hwhole []).symm.trans hread)
    rw [hend] at hfailed
    contradiction

theorem eq_nil (h : a.Carries [] messages) : messages = [] := by
  have hread := h.reads []
  rw [List.append_nil, readAll_nil h.unfinished] at hread
  exact (List.append_eq_nil_iff.mp (congrArg Prod.fst hread).symm).1

end Carries

end Assembler

theorem Sink.bytes_write (sink : Sink) (bytes : List UInt8) :
    ({ sink with written := bytes :: sink.written } : Sink).bytes = sink.bytes ++ bytes := by
  simp [Sink.bytes]

/-- What was written to a sink, of which so many bytes have come to an assembler, are messages of
which these are still on their way. -/
structure Conveys (sink : Sink) (count : Nat) (a : Assembler) (messages : List Message) : Prop where
  works : sink.fault = none
  written : count ≤ sink.bytes.length
  carries : a.Carries (sink.bytes.drop count) messages

namespace Conveys

variable {sink : Sink} {count : Nat} {a : Assembler} {messages : List Message}

theorem start : Conveys .empty 0 .fresh [] := ⟨rfl, Nat.zero_le _, Assembler.carries_fresh⟩

theorem write (h : Conveys sink count a messages) {m : Message} (hm : m.Fits) :
    ∃ bytes sink', m.frame = .ok bytes ∧ sink.write bytes = .ok sink' ∧
      Conveys sink' count a (messages ++ [m]) := by
  let bytes := Frame.header m.class m.payload.length ++ m.payload
  refine ⟨bytes, { sink with written := bytes :: sink.written }, Message.frame_of_le hm, ?_,
    h.works, ?_, ?_⟩
  · rw [Sink.write, h.works]
  · rw [Sink.bytes_write, List.length_append]
    exact Nat.le_add_right_of_le h.written
  · rw [Sink.bytes_write, List.drop_append_of_le_length h.written]
    exact h.carries.append hm

theorem feed (h : Conveys sink count a messages) (n : Nat) :
    let piece := (sink.bytes.drop count).take n
    ∃ now later a', messages = now ++ later ∧ a.feed piece = (.ok now, a') ∧
      Conveys sink (count + piece.length) a' later := by
  intro piece
  have hsplit : sink.bytes.drop count = piece ++ (sink.bytes.drop count).drop n :=
    (List.take_append_drop n _).symm
  have hrest : (sink.bytes.drop count).drop n = sink.bytes.drop (count + piece.length) := by
    rw [← List.drop_drop]
    exact ((congrArg (List.drop piece.length) hsplit).trans List.drop_left).symm
  have hcarries := h.carries
  rw [hsplit, hrest] at hcarries
  obtain ⟨now, later, a', hmessages, hfeed, hlater⟩ := hcarries.feed
  have hpiece : piece.length ≤ sink.bytes.length - count := by
    rw [← List.length_drop]
    exact List.length_take_le' n _
  have hwritten := h.written
  exact ⟨now, later, a', hmessages, hfeed, h.works, by omega, hlater⟩

theorem eq_nil (h : Conveys sink count a messages) (hall : count = sink.bytes.length) :
    messages = [] := by
  have hcarries := h.carries
  rw [hall, List.drop_length] at hcarries
  exact hcarries.eq_nil

end Conveys

/-- Whether the command of a request has a frame. -/
def Request.Fits (r : Request κ) : Prop := (Message.command r.1).Fits

instance : DecidablePred (@Request.Fits κ) := fun r =>
  inferInstanceAs (Decidable (Message.command r.1).Fits)

theorem Answer.fits_toAll (w : World) {requests : List (Request κ)}
    (hfit : ∀ r ∈ requests, r.Fits) :
    ∀ e ∈ toAll requests (w.executeAll (requests.map (·.1.op))).1,
      (Message.response e.response).Fits := by
  induction requests generalizing w with
  | nil => exact fun e he => absurd he List.not_mem_nil
  | cons r requests ih =>
      obtain ⟨hr, hrest⟩ := List.forall_mem_cons.mp hfit
      obtain ⟨c, _ | callback⟩ := r
      · exact ih (w.execute c.op).2 hrest
      · exact List.forall_mem_cons.mpr ⟨w.response_fits hr c.token, ih (w.execute c.op).2 hrest⟩

theorem Connection.handle_commands (c : Connection) (sim : Simulation)
    (requests : List (Request κ)) :
    c.handle sim (requests.map fun r => .command r.1) =
      (.ok (), c, requests.foldl (fun sim r => sim.submit r.1 c.channel) sim) := by
  induction requests generalizing sim with
  | nil => rfl
  | cons r requests ih => exact ih (sim.submit r.1 c.channel)

theorem Connection.receive_commands {c : Connection} {sim : Simulation} {piece : List UInt8}
    {requests : List (Request κ)} {a : Assembler}
    (hfeed : c.assembler.feed piece = (.ok (requests.map fun r => .command r.1), a)) :
    (c.receive sim piece).2 =
      ({ c with assembler := a }, requests.foldl (fun sim r => sim.submit r.1 c.channel) sim) := by
  rw [receive, hfeed]
  dsimp only
  rw [handle_commands]

theorem Connection.flushFrom_answers {channel : Channel} {sink : Sink} {count : Nat} {a : Assembler}
    {messages : List Message} (h : Conveys sink count a messages) {answers : List (Answer κ)}
    (hfit : ∀ e ∈ answers, (Message.response e.response).Fits) :
    ∃ sent sink', flushFrom channel sink (answers.map fun e => (channel, e.response)) =
        (sent, sink', []) ∧
      Conveys sink' count a (messages ++ answers.map fun e => .response e.response) := by
  induction answers generalizing sink messages with
  | nil =>
      refine ⟨.ok 0, sink, rfl, ?_⟩
      rw [List.map_nil, List.append_nil]
      exact h
  | cons e answers ih =>
      obtain ⟨hfirst, hothers⟩ := List.forall_mem_cons.mp hfit
      obtain ⟨bytes, sink', hframe, hwrite, hconveys⟩ := h.write hfirst
      obtain ⟨sent, sink'', hflush, hlast⟩ := ih hconveys hothers
      have hsend : send sink (.response e.response) = .ok sink' := by
        rw [send, hframe]
        dsimp only
        rw [hwrite]
      rw [List.append_assoc] at hlast
      refine ⟨sent.map (· + 1), sink'', ?_, hlast⟩
      rw [List.map_cons, flushFrom, if_pos rfl, hsend]
      dsimp only
      rw [hflush]

namespace StreamEnd

theorem send_of_write {e : StreamEnd} {c : Command} {bytes : List UInt8} {sink : Sink}
    (hframe : (Message.command c).frame = .ok bytes) (hwrite : e.sink.write bytes = .ok sink) :
    e.send c = (.ok (), { e with sink }) := by
  rw [send, hframe]
  dsimp only
  rw [hwrite]

theorem sink_receive (e : StreamEnd) (s : List UInt8) : (e.receive s).2.sink = e.sink := by
  rw [receive]
  dsimp only
  split <;> rfl

theorem receive_answers {e : StreamEnd} {piece : List UInt8} {answers : List (Answer κ)}
    {a : Assembler}
    (hfeed : e.assembler.feed piece = (.ok (answers.map fun e => .response e.response), a)) :
    (e.receive piece).2 =
      { e with assembler := a, inbox := e.inbox ++ (answers.map Answer.response).toArray } := by
  have hresponses : (answers.map fun e => Message.response e.response).filterMap response? =
      answers.map Answer.response := by
    rw [List.filterMap_map]
    exact congrFun List.filterMap_eq_map answers
  rw [receive, hfeed]
  dsimp only
  rw [hresponses]

end StreamEnd

theorem Simulation.posted_submitAll (sim : Simulation) (channel : Channel)
    (commands : List Command) :
    (commands.foldl (fun sim c => sim.submit c channel) sim).posted = sim.posted := by
  induction commands generalizing sim with
  | nil => rfl
  | cons c commands ih => exact ih (sim.submit c channel)

/-- A client whose bytes go to a connection and the other way round, the simulation behind it, how
many bytes have come each way, what the frames executed, and the calls so far. -/
structure Remote (κ : Type) where
  client : Client κ
  near : StreamEnd
  connection : Connection
  simulation : Simulation
  up : Nat
  down : Nat
  log : List Executed
  calls : List (Call κ)

namespace Remote

/-- What the two ends of a stream and the simulation do. So many bytes, or as many as there are,
come to the connection or to the client at once. -/
inductive Act (κ : Type) where
  | send (op : Operation) (callback : Option κ)
  | carryUp (n : Nat)
  | frame
  | flush
  | carryDown (n : Nat)
  | pump

def Act.sent? : Act κ → Option (Operation × Option κ)
  | .send op callback => some (op, callback)
  | _ => none

/-- A new client and a new connection to a simulation of a world. -/
def start (w : World) (channel : Channel) : Remote κ :=
  ⟨.new, .fresh, .new channel, .ofWorld w, 0, 0, [], []⟩

def act (d : Remote κ) : Act κ → Remote κ
  | .send op callback =>
      let (_, client, near) := d.client.send Transport.stream d.near op callback
      { d with client, near }
  | .carryUp n =>
      let piece := (d.near.sink.bytes.drop d.up).take n
      let (_, connection, simulation) := d.connection.receive d.simulation piece
      { d with connection, simulation, up := d.up + piece.length }
  | .frame =>
      { d with
        simulation := d.simulation.frame
        log := d.log ++ (d.simulation.world.note d.simulation.queue.waiting.toList).1 }
  | .flush =>
      let (_, connection, simulation) := d.connection.flush d.simulation
      { d with connection, simulation }
  | .carryDown n =>
      let piece := (d.connection.sink.bytes.drop d.down).take n
      let (_, near) := d.near.receive piece
      { d with near, down := d.down + piece.length }
  | .pump =>
      let (_, calls, client, near) := d.client.pump Transport.stream d.near
      { d with client, near, calls := d.calls ++ calls }

def run (d : Remote κ) (acts : List (Act κ)) : Remote κ := acts.foldl act d

/-- All bytes have come, everything queued was executed, and all responses were written and
dispatched. -/
structure AtRest (d : Remote κ) : Prop where
  carriedUp : d.up = d.near.sink.bytes.length
  executed : d.simulation.queue.isEmpty
  flushed : d.simulation.posted = []
  carriedDown : d.down = d.connection.sink.bytes.length
  pumped : d.near.inbox.isEmpty

/-- The commands are executed, or wait, or are on their way to the connection. -/
structure Upward (w : World) (channel : Channel) (sends : List (Operation × Option κ))
    (g : Stages κ) (d : Remote κ) : Prop where
  underway : Underway w channel sends g d.log d.client d.simulation
  own : d.connection.channel = channel
  conveys : Conveys d.near.sink d.up d.connection.assembler (g.out.map fun r => .command r.1)

variable {w : World} {channel : Channel} {sends : List (Operation × Option κ)} {g : Stages κ}
  {d : Remote κ}

theorem upward_start (hw : w.Registered) :
    Upward w channel [] Stages.empty (start w channel : Remote κ) :=
  ⟨.start hw, rfl, .start⟩

theorem act_send {a : Assembler} {messages : List Message}
    (h : Conveys d.near.sink d.up a messages) {op : Operation} {callback : Option κ}
    (hfit : (d.client.request op callback).Fits) :
    ∃ sink, (d.act (.send op callback)).near = { d.near with sink } ∧
      Conveys sink d.up a (messages ++ [.command (d.client.request op callback).1]) ∧
      (d.act (.send op callback)).client.waiting =
        (d.client.request op callback).ticket?.toList ++ d.client.waiting ∧
      (d.act (.send op callback)).client.nextToken =
        d.client.nextToken + UInt64.ofNat (Client.asked [(op, callback)]) := by
  obtain ⟨bytes, sink, hframe, hwrite, hconveys⟩ := h.write hfit
  have hsent := StreamEnd.send_of_write hframe hwrite
  obtain ⟨hwaiting, hnext, hstate⟩ :=
    Client.send_accepted (t := Transport.stream) (congrArg Prod.fst hsent)
  exact ⟨sink, hstate.trans (congrArg Prod.snd hsent), hconveys, hwaiting, hnext⟩

namespace Upward

theorem send (h : Upward w channel sends g d) {op : Operation} {callback : Option κ}
    (hfit : (d.client.request op callback).Fits) :
    Upward w channel (sends ++ [(op, callback)])
      { g with out := g.out ++ [d.client.request op callback] } (d.act (.send op callback)) := by
  obtain ⟨sink, hnear, hconveys, -, hnext⟩ := act_send h.conveys hfit
  refine ⟨h.underway.send hnext, h.own, ?_⟩
  rw [hnear, List.map_append]
  exact hconveys

theorem carryUp (h : Upward w channel sends g d) (n : Nat) :
    ∃ requests rest, g.out = requests ++ rest ∧
      Upward w channel sends { g with queued := g.queued ++ requests, out := rest }
        (d.act (.carryUp n)) ∧
      (d.act (.carryUp n)).simulation.posted = d.simulation.posted ∧
      (d.act (.carryUp n)).connection.sink = d.connection.sink := by
  obtain ⟨now, later, a, hmessages, hfeed, hconveys⟩ := h.conveys.feed n
  obtain ⟨requests, rest, hout, rfl, rfl⟩ := List.map_eq_append_iff.mp hmessages
  have hreceive := @Connection.receive_commands κ d.connection d.simulation _ _ _ hfeed
  have hconnection : (d.act (.carryUp n)).connection = { d.connection with assembler := a } :=
    congrArg Prod.fst hreceive
  have hsimulation : (d.act (.carryUp n)).simulation =
      requests.foldl (fun sim r => sim.submit r.1 channel) d.simulation :=
    h.own ▸ congrArg Prod.snd hreceive
  refine ⟨requests, rest, hout, ⟨?_, ?_, ?_⟩, ?_, ?_⟩
  · rw [hsimulation]
    exact h.underway.submitAll hout
  · rw [hconnection]
    exact h.own
  · rw [hconnection]
    exact hconveys
  · rw [hsimulation, ← d.simulation.posted_submitAll channel (requests.map (·.1)), List.foldl_map]
  · rw [hconnection]

theorem frame (h : Upward w channel sends g d) :
    Upward w channel sends (g.frame w) (d.act .frame) :=
  ⟨h.underway.frame, h.own, h.conveys⟩

theorem flush (h : Upward w channel sends g d) (called back posted : List (Answer κ)) :
    Upward w channel sends { g with called, back, posted } (d.act .flush) :=
  ⟨h.underway.answered rfl rfl rfl, h.own, h.conveys⟩

theorem carryDown (h : Upward w channel sends g d) (called back posted : List (Answer κ))
    (n : Nat) :
    Upward w channel sends { g with called, back, posted } (d.act (.carryDown n)) := by
  refine ⟨h.underway.answered rfl rfl rfl, h.own, ?_⟩
  have hsink : (d.act (.carryDown n)).near.sink = d.near.sink := d.near.sink_receive _
  rw [hsink]
  exact h.conveys

theorem pump (h : Upward w channel sends g d) (called back posted : List (Answer κ)) :
    Upward w channel sends { g with called, back, posted } (d.act .pump) :=
  ⟨h.underway.answered (d.client.nextToken_dispatchAll _) rfl rfl, h.own, h.conveys⟩

theorem act (h : Upward w channel sends g d) {a : Act κ}
    (hfit : ∀ r ∈ Client.requests 1 (sends ++ a.sent?.toList), r.Fits) :
    ∃ g', Upward w channel (sends ++ a.sent?.toList) g' (d.act a) := by
  cases a with
  | send op callback =>
      have hrequest := hfit _ (h.underway.numbered.request_mem op callback)
      exact ⟨_, h.send hrequest⟩
  | carryUp n =>
      obtain ⟨requests, rest, -, hnext, -⟩ := h.carryUp n
      exact ⟨_, (List.append_nil sends).symm ▸ hnext⟩
  | frame => exact ⟨_, (List.append_nil sends).symm ▸ h.frame⟩
  | flush => exact ⟨_, (List.append_nil sends).symm ▸ h.flush g.called g.back g.posted⟩
  | carryDown n => exact ⟨_, (List.append_nil sends).symm ▸ h.carryDown g.called g.back g.posted n⟩
  | pump => exact ⟨_, (List.append_nil sends).symm ▸ h.pump g.called g.back g.posted⟩

end Upward

/-- The answers have led to calls, or have arrived, or are coming, or wait to be written. -/
structure Downward (w : World) (channel : Channel) (g : Stages κ) (arrived coming : List (Answer κ))
    (d : Remote κ) : Prop where
  flow : Flow w channel g d.client d.simulation d.calls
  back : g.back = arrived ++ coming
  inbox : d.near.inbox.toList = arrived.map Answer.response
  conveys : Conveys d.connection.sink d.down d.near.assembler
    (coming.map fun e => .response e.response)

theorem downward_start : Downward w channel Stages.empty [] [] (start w channel : Remote κ) :=
  ⟨.start _ rfl, rfl, rfl, .start⟩

/-- Where everything is, both ways. -/
structure Linked (w : World) (channel : Channel) (sends : List (Operation × Option κ))
    (g : Stages κ) (arrived coming : List (Answer κ)) (d : Remote κ) : Prop where
  upward : Upward w channel sends g d
  downward : Downward w channel g arrived coming d

theorem linked_start (hw : w.Registered) :
    Linked w channel [] Stages.empty [] [] (start w channel : Remote κ) :=
  ⟨upward_start hw, downward_start⟩

namespace Linked

variable {arrived coming : List (Answer κ)}

theorem send (h : Linked w channel sends g arrived coming d) {op : Operation} {callback : Option κ}
    (hfit : (d.client.request op callback).Fits) :
    Linked w channel (sends ++ [(op, callback)])
      { g with out := g.out ++ [d.client.request op callback] } arrived coming
      (d.act (.send op callback)) := by
  obtain ⟨sink, hnear, -, hwaiting, -⟩ := act_send h.upward.conveys hfit
  refine ⟨h.upward.send hfit, h.downward.flow.send hwaiting, h.downward.back, ?_, ?_⟩
  · rw [hnear]
    exact h.downward.inbox
  · rw [hnear]
    exact h.downward.conveys

theorem carryUp (h : Linked w channel sends g arrived coming d) (n : Nat) :
    ∃ g', Linked w channel sends g' arrived coming (d.act (.carryUp n)) := by
  obtain ⟨requests, rest, hout, hup, hposted, hsink⟩ := h.upward.carryUp n
  refine ⟨_, hup, h.downward.flow.submitAll hout hposted, h.downward.back, h.downward.inbox, ?_⟩
  rw [hsink]
  exact h.downward.conveys

theorem frame (h : Linked w channel sends g arrived coming d)
    (hbound : Client.asked sends < UInt64.size) :
    Linked w channel sends (g.frame w) arrived coming (d.act .frame) := by
  have hflow := h.downward.flow.frame h.upward.underway.executes
    (h.upward.underway.proper_queued hbound)
  exact ⟨h.upward.frame, hflow, h.downward.back, h.downward.inbox, h.downward.conveys⟩

theorem flush (h : Linked w channel sends g arrived coming d)
    (hfit : ∀ r ∈ Client.requests 1 sends, r.Fits) :
    Linked w channel sends { g with back := g.back ++ g.posted, posted := [] } arrived
      (coming ++ g.posted) (d.act .flush) := by
  -- A response comes of a command that came in a frame, so that it is short enough for one.
  have hdone : ∀ r ∈ g.done, r.Fits := by
    rw [← h.upward.underway.sent] at hfit
    exact fun r hr => hfit r (List.mem_append_left _ (List.mem_append_left _ hr))
  have hanswers : ∀ e ∈ g.posted, (Message.response e.response).Fits := by
    intro e he
    apply Answer.fits_toAll w hdone
    change e ∈ Answer.toAll g.done (g.executed w).1
    rw [h.downward.flow.answers]
    exact List.mem_append_right _ he
  obtain ⟨sent, sink, hflush, hconveys⟩ := Connection.flushFrom_answers h.downward.conveys hanswers
  rw [← h.downward.flow.posted, ← h.upward.own] at hflush
  have hsink : (d.act .flush).connection.sink = sink := congrArg (fun p => p.2.1) hflush
  have hposted : (d.act .flush).simulation.posted = [] := congrArg (fun p => p.2.2) hflush
  refine ⟨h.upward.flush _ _ _, h.downward.flow.collect hposted, ?_, h.downward.inbox, ?_⟩
  · rw [h.downward.back, List.append_assoc]
  · rw [hsink, List.map_append]
    exact hconveys

theorem carryDown (h : Linked w channel sends g arrived coming d) (n : Nat) :
    ∃ arrived' coming', Linked w channel sends g arrived' coming' (d.act (.carryDown n)) := by
  obtain ⟨now, later, a, hmessages, hfeed, hconveys⟩ := h.downward.conveys.feed n
  obtain ⟨landed, rest, hcoming, rfl, rfl⟩ := List.map_eq_append_iff.mp hmessages
  have hnear : (d.act (.carryDown n)).near = _ := StreamEnd.receive_answers hfeed
  refine ⟨arrived ++ landed, rest, h.upward.carryDown _ _ _ n, h.downward.flow, ?_, ?_, ?_⟩
  · rw [h.downward.back, hcoming, List.append_assoc]
  · rw [hnear, Array.toList_append, h.downward.inbox, List.map_append]
  · rw [hnear]
    exact hconveys

theorem pump (h : Linked w channel sends g arrived coming d)
    (hbound : Client.asked sends < UInt64.size) :
    Linked w channel sends { g with called := g.called ++ arrived, back := coming } [] coming
      (d.act .pump) := by
  have hflow := h.downward.flow.dispatchAll (h.upward.underway.nodup_tokens hbound) h.downward.back
  rw [← h.downward.inbox] at hflow
  exact ⟨h.upward.pump _ _ _, hflow, rfl, rfl, h.downward.conveys⟩

theorem act (h : Linked w channel sends g arrived coming d) {a : Act κ}
    (hfit : ∀ r ∈ Client.requests 1 (sends ++ a.sent?.toList), r.Fits)
    (hbound : Client.asked sends < UInt64.size) :
    ∃ g' arrived' coming',
      Linked w channel (sends ++ a.sent?.toList) g' arrived' coming' (d.act a) := by
  cases a with
  | send op callback =>
      have hrequest := hfit _ (h.upward.underway.numbered.request_mem op callback)
      exact ⟨_, _, _, h.send hrequest⟩
  | carryUp n =>
      obtain ⟨g', hnext⟩ := h.carryUp n
      exact ⟨g', _, _, (List.append_nil sends).symm ▸ hnext⟩
  | frame => exact ⟨_, _, _, (List.append_nil sends).symm ▸ h.frame hbound⟩
  | flush =>
      change ∀ r ∈ Client.requests 1 (sends ++ []), r.Fits at hfit
      rw [List.append_nil] at hfit
      exact ⟨_, _, _, (List.append_nil sends).symm ▸ h.flush hfit⟩
  | carryDown n =>
      obtain ⟨arrived', coming', hnext⟩ := h.carryDown n
      exact ⟨g, arrived', coming', (List.append_nil sends).symm ▸ hnext⟩
  | pump => exact ⟨_, _, _, (List.append_nil sends).symm ▸ h.pump hbound⟩

end Linked

theorem fits_of_append {more : List (Operation × Option κ)}
    (hfit : ∀ r ∈ Client.requests 1 (sends ++ more), r.Fits) :
    ∀ r ∈ Client.requests 1 sends, r.Fits := by
  rw [Client.requests_append] at hfit
  exact fun r hr => hfit r (List.mem_append_left _ hr)

theorem Upward.run (h : Upward w channel sends g d) (acts : List (Act κ))
    (hfit : ∀ r ∈ Client.requests 1 (sends ++ acts.filterMap Act.sent?), r.Fits) :
    ∃ g', Upward w channel (sends ++ acts.filterMap Act.sent?) g' (d.run acts) := by
  induction acts generalizing sends g d with
  | nil =>
      rw [List.filterMap_nil, List.append_nil]
      exact ⟨g, h⟩
  | cons a acts ih =>
      rw [filterMap_cons_toList, ← List.append_assoc] at hfit ⊢
      obtain ⟨g', hnext⟩ := h.act (fits_of_append hfit)
      exact ih hnext hfit

theorem Linked.run {arrived coming : List (Answer κ)}
    (h : Linked w channel sends g arrived coming d) (acts : List (Act κ))
    (hfit : ∀ r ∈ Client.requests 1 (sends ++ acts.filterMap Act.sent?), r.Fits)
    (hbound : Client.asked (sends ++ acts.filterMap Act.sent?) < UInt64.size) :
    ∃ g' arrived' coming',
      Linked w channel (sends ++ acts.filterMap Act.sent?) g' arrived' coming' (d.run acts) := by
  induction acts generalizing sends g arrived coming d with
  | nil =>
      rw [List.filterMap_nil, List.append_nil]
      exact ⟨g, arrived, coming, h⟩
  | cons a acts ih =>
      have hfirst := Nat.lt_of_le_of_lt (Client.asked_le_append sends _) hbound
      rw [filterMap_cons_toList, ← List.append_assoc] at hfit hbound ⊢
      obtain ⟨g', arrived', coming', hnext⟩ := h.act (fits_of_append hfit) hfirst
      exact ih hnext hfit hbound

theorem Upward.reached (h : Upward w channel sends g d) :
    let items := (Client.requests 1 sends).map (Request.item channel)
    d.log <+: items.zip (w.executeAll (sends.map Prod.fst)).1 ∧
      (d.log.map Prod.fst ++ d.simulation.queue.waiting.toList <+: items) ∧
      (d.up = d.near.sink.bytes.length →
        d.log.map Prod.fst ++ d.simulation.queue.waiting.toList = items) := by
  intro items
  have hitems : items = (g.done ++ g.queued).map (Request.item channel) ++
      g.out.map (Request.item channel) := by
    rw [← List.map_append]
    exact congrArg _ h.underway.sent.symm
  refine ⟨?_, ?_, fun hall => ?_⟩
  · have hlog := h.underway.executes.log_prefix
    rwa [h.underway.sent, Client.map_op_requests] at hlog
  · rw [h.underway.executes.reached, hitems]
    exact List.prefix_append _ _
  · rw [h.underway.executes.reached, hitems, List.map_eq_nil_iff.mp (h.conveys.eq_nil hall)]
    exact (List.append_nil _).symm

theorem Linked.calls_eq {arrived coming : List (Answer κ)}
    (h : Linked w channel sends g arrived coming d) (hrest : d.AtRest) :
    d.client.pending = 0 ∧ d.calls = w.callsDue sends := by
  have hout : g.out = [] := List.map_eq_nil_iff.mp (h.upward.conveys.eq_nil hrest.carriedUp)
  have hcoming : coming = [] := List.map_eq_nil_iff.mp (h.downward.conveys.eq_nil hrest.carriedDown)
  have hempty : d.near.inbox = #[] := Array.isEmpty_iff.mp hrest.pumped
  have harrived : arrived = [] := by
    have hinbox := h.downward.inbox
    rw [hempty] at hinbox
    exact List.map_eq_nil_iff.mp hinbox.symm
  have hback : g.back = [] := by rw [h.downward.back, harrived, hcoming]; rfl
  obtain ⟨hcalls, hpending⟩ := h.downward.flow.calls_eq
    (h.upward.underway.executes.queued_eq_nil hrest.executed) hout hback
    (h.downward.flow.posted_eq_nil hrest.flushed)
  exact ⟨hpending, hcalls.trans h.upward.underway.callsDue⟩

theorem count_add_take {bytes : List UInt8} {count : Nat} (hcount : count ≤ bytes.length) :
    count + ((bytes.drop count).take bytes.length).length = bytes.length := by
  rw [List.length_take, List.length_drop]
  omega

/-- When the simulation is through with all that was sent, carrying the bytes back is left. -/
theorem atRest_of_flushed (hup : d.up = d.near.sink.bytes.length)
    (hexecuted : d.simulation.queue.isEmpty) (hflushed : d.simulation.posted = [])
    (hdown : d.down ≤ d.connection.sink.bytes.length) :
    ((d.act (.carryDown d.connection.sink.bytes.length)).act .pump).AtRest where
  carriedUp := hup.trans (congrArg (·.bytes.length) (d.near.sink_receive _).symm)
  executed := hexecuted
  flushed := hflushed
  carriedDown := count_add_take hdown
  pumped := rfl

/-- From everywhere everything can be brought to rest without sending any more. -/
theorem Linked.exists_atRest {arrived coming : List (Answer κ)}
    (h : Linked w channel sends g arrived coming d)
    (hfit : ∀ r ∈ Client.requests 1 sends, r.Fits) (hbound : Client.asked sends < UInt64.size) :
    ∃ more : List (Act κ), more.filterMap Act.sent? = [] ∧ (d.run more).AtRest := by
  have hup : (d.act (.carryUp d.near.sink.bytes.length)).up =
      (d.act (.carryUp d.near.sink.bytes.length)).near.sink.bytes.length :=
    count_add_take h.upward.conveys.written
  obtain ⟨g', hcarried⟩ := h.carryUp d.near.sink.bytes.length
  have hrest {e : Remote κ} (he : Linked w channel sends g' arrived coming e)
      (hup : e.up = e.near.sink.bytes.length) :
      ∃ n, (e.run [.frame, .flush, .carryDown n, .pump]).AtRest := by
    have hflush := (he.frame hbound).flush hfit
    exact ⟨_, atRest_of_flushed hup rfl hflush.downward.flow.posted hflush.downward.conveys.written⟩
  obtain ⟨n, hn⟩ := hrest hcarried hup
  refine ⟨[.carryUp d.near.sink.bytes.length, .frame, .flush, .carryDown n, .pump], rfl, ?_⟩
  rw [Remote.run, List.foldl_cons]
  exact hn

/-- If every command has a frame, then however the bytes are cut and everything is interleaved, the
commands come to the queue once each and in the order in which they are sent, and are executed in
this order. As long as tokens do not run out, every callback is called at most once and with the
outcome of its own command. Everything can come to rest, which is when all bytes have come,
everything queued was executed and all responses were written and dispatched; then no callback
waits, and the calls are those that a client in the same program makes, which can come to rest,
too. -/
theorem run_refines_direct (size : UInt32) (past : List World.Happening) (channel : Channel)
    (acts : List (Act κ)) (hfit : ∀ r ∈ Client.requests 1 (acts.filterMap Act.sent?), r.Fits) :
    let w := (World.new size).happenAll past
    let sends := acts.filterMap Act.sent?
    let items := (Client.requests 1 sends).map (Request.item channel)
    let d := (start w channel).run acts
    d.log <+: items.zip (w.executeAll (sends.map Prod.fst)).1 ∧
    (d.log.map Prod.fst ++ d.simulation.queue.waiting.toList <+: items) ∧
    (d.up = d.near.sink.bytes.length →
      d.log.map Prod.fst ++ d.simulation.queue.waiting.toList = items) ∧
    (Client.asked sends < UInt64.size →
      d.calls <+: w.callsDue sends ∧
      (∃ more : List (Act κ), more.filterMap Act.sent? = [] ∧ (d.run more).AtRest) ∧
      (∀ own, ∃ acts' : List (Direct.Act κ), acts'.filterMap Direct.Act.sent? = sends ∧
        ((Direct.start w).run own acts').AtRest) ∧
      (d.AtRest → d.client.pending = 0 ∧ d.calls = w.callsDue sends ∧
        ∀ (own : Channel) (acts' : List (Direct.Act κ)),
          let d' := (Direct.start w).run own acts'
          acts'.filterMap Direct.Act.sent? = sends → d'.AtRest →
            d'.client.pending = 0 ∧ d'.calls = d.calls)) := by
  intro w sends items d
  have hw : w.Registered := World.registered_happenAll size past
  obtain ⟨g, hup⟩ := (upward_start hw).run acts hfit
  obtain ⟨hlog, hfirst, hall⟩ := hup.reached
  refine ⟨hlog, hfirst, hall, fun hbound => ?_⟩
  obtain ⟨g', arrived, coming, h⟩ := (linked_start hw).run acts hfit hbound
  have hcalled : d.calls <+: w.callsDue sends :=
    h.upward.underway.callsDue ▸ h.downward.flow.calls_prefix
  refine ⟨hcalled, h.exists_atRest hfit hbound,
    fun own => Direct.exists_run_atRest hw own hbound, fun hrest => ?_⟩
  obtain ⟨hpending, hcalls⟩ := h.calls_eq hrest
  refine ⟨hpending, hcalls, ?_⟩
  intro own acts' d' hsends hrest'
  have hbound' : Client.asked (acts'.filterMap Direct.Act.sent?) < UInt64.size := hsends ▸ hbound
  obtain ⟨hpending', hcalls'⟩ := (Direct.run_calls hw own acts' hbound').2 hrest'
  rw [hsends] at hcalls'
  exact ⟨hpending', hcalls'.trans hcalls.symm⟩

theorem run_refines_direct_pieces :
    let acts : List (Act Nat) :=
      [.send .fluidReset none, .send (.sourceDestroy ⟨2⟩) (some 7), .carryUp 3,
        .send .fluidReset (some 8), .carryUp 1000, .frame, .flush, .carryDown 5, .pump,
        .carryDown 1000, .pump]
    let d := (start (World.new 1) 0).run acts
    (∀ r ∈ Client.requests 1 (acts.filterMap Act.sent?), r.Fits) ∧ d.AtRest ∧
      d.calls = [(7, .failure (.noSuchObject ⟨2⟩)), (8, .success .nothing)] := by
  intro acts d
  have hfit : ∀ r ∈ Client.requests 1 (acts.filterMap Act.sent?), r.Fits := by decide +kernel
  have hends : d.up = d.near.sink.bytes.length ∧ d.simulation.queue.isEmpty ∧
      d.simulation.posted = [] ∧ d.down = d.connection.sink.bytes.length ∧
      d.near.inbox.isEmpty := by
    decide +kernel
  have hrest : d.AtRest := ⟨hends.1, hends.2.1, hends.2.2.1, hends.2.2.2.1, hends.2.2.2.2⟩
  obtain ⟨-, -, -, hcalls⟩ := run_refines_direct 1 [] 0 acts hfit
  exact ⟨hfit, hrest, ((hcalls (by decide)).2.2.2 hrest).2.1.trans (by decide +kernel)⟩

end Remote

end Terrarium
