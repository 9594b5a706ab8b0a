import Terrarium.Proofs.PeerServing
import Terrarium.Proofs.ReadDensities

namespace Terrarium

/-- Whether a response has a frame, whose payload gives it back. -/
def Response.Travels (r : Response) : Prop :=
  ∃ bytes, (Message.response r).frame = .ok bytes ∧
    Message.ofPayload? .response (bytes.drop Frame.headerSize) = some (.response r)

theorem Response.travels_of_fits {r : Response} (hr : (Message.response r).Fits) : r.Travels := by
  refine ⟨_, Message.frame_of_le hr, ?_⟩
  rw [List.drop_left' (Frame.length_header _ _)]
  exact Message.ofPayload?_payload (Nat.lt_of_le_of_lt hr (by decide))

/-- Whether the densities of each operation in a submission can be counted in a word, as those of any
list in memory can. -/
def Submission.Countable (c : Submission) : Prop :=
  ∀ item ∈ c.items, item.op.densities < UInt64.size

/-- A simulation and the connections of its peers, one on each channel. -/
structure Service where
  simulation : Simulation
  connection : Channel → Connection

/-- What operations wait, and what responses, when all of them can be answered and sent. -/
structure Simulation.Sendable (s : Simulation) : Prop where
  waiting : ∀ item ∈ s.queue.waiting.toList, item.op.densities < UInt64.size
  posted : ∀ p ∈ s.posted, (Message.response p.2).Fits

namespace Simulation.Sendable

variable {s : Simulation}

theorem accept (hs : s.Sendable) {c : Submission} (hc : c.Countable) : (s.accept c).Sendable := by
  rw [accept_eq]
  refine ⟨fun item hitem => ?_, hs.posted⟩
  rw [OperationQueue.waiting_pushAll, List.mem_append] at hitem
  exact hitem.elim (hs.waiting item) (hc item)

theorem acceptAll (hs : s.Sendable) {submissions : List Submission}
    (hall : ∀ c ∈ submissions, c.Countable) : (s.acceptAll submissions).Sendable := by
  induction submissions generalizing s with
  | nil => exact hs
  | cons c submissions ih =>
      obtain ⟨hc, hrest⟩ := List.forall_mem_cons.mp hall
      exact ih (hs.accept hc) hrest

theorem answers (w : World) {batch : List QueuedOperation}
    (hbatch : ∀ item ∈ batch, item.op.densities < UInt64.size) :
    ∀ p ∈ Simulation.answers batch (w.executeAll (batch.map (·.op))).1,
      (Message.response p.2).Fits := by
  induction batch generalizing w with
  | nil => exact fun p hp => absurd hp List.not_mem_nil
  | cons item batch ih =>
      obtain ⟨hitem, hrest⟩ := List.forall_mem_cons.mp hbatch
      have hothers := ih (w.execute item.op).2 hrest
      obtain ⟨op, - | reply⟩ := item
      · exact hothers
      · exact List.forall_mem_cons.mpr ⟨w.response_fits_of_densities hitem reply.token, hothers⟩

theorem frame (hs : s.Sendable) : s.frame.Sendable := by
  refine ⟨fun item hitem => absurd hitem List.not_mem_nil, fun p hp => ?_⟩
  rcases List.mem_append.mp hp with hp | hp
  · exact hs.posted p hp
  · exact answers s.world.wait hs.waiting p hp

theorem frameDuring (hs : s.Sendable) {during : List (List Submission)}
    (hall : ∀ c ∈ during.flatten, c.Countable) : (s.frameDuring during).Sendable := by
  rw [frameDuring_eq]
  exact hs.frame.acceptAll hall

theorem collect (hs : s.Sendable) (channel : Channel) : (s.collect channel).2.Sendable :=
  ⟨hs.waiting, fun p hp => hs.posted p (List.mem_of_mem_filter hp)⟩

end Simulation.Sendable

namespace Connection

variable {c : Connection} {sim : Simulation}

theorem assembler_handle (c : Connection) (sim : Simulation) (messages : List Message) :
    (c.handle sim messages).2.1.assembler = c.assembler := by
  induction messages generalizing c sim with
  | nil => rfl
  | cons m messages ih =>
      cases m with
      | link signal =>
          cases signal with
          | ping seq =>
              rw [handle]
              split
              · rfl
              · exact ih _ sim
          | pong seq => exact ih c sim
      | command command => exact ih c _
      | response r => exact ih c sim

theorem sendable_handle (hsim : sim.Sendable) {messages : List Message}
    (hall : ∀ m ∈ messages, m.Countable) : (c.handle sim messages).2.2.Sendable := by
  induction messages generalizing c sim with
  | nil => exact hsim
  | cons m messages ih =>
      obtain ⟨hm, hrest⟩ := List.forall_mem_cons.mp hall
      cases m with
      | link signal =>
          cases signal with
          | ping seq =>
              rw [handle]
              split
              · exact hsim
              · exact ih hsim hrest
          | pong seq => exact ih hsim hrest
      | command command =>
          exact ih (hsim.accept (c := .submit command c.channel)
            (List.forall_mem_singleton.mpr hm)) hrest
      | response r => exact ih hsim hrest

theorem bounded_receive (hc : c.assembler.Bounded) (sim : Simulation) (piece : List UInt8) :
    (c.receive sim piece).2.1.assembler.Bounded := by
  have hfed := hc.call (.feed piece)
  rw [receive]
  dsimp only
  split
  · exact hfed
  · rw [assembler_handle]
    exact hfed

theorem sendable_receive (hc : c.assembler.Bounded) (hsim : sim.Sendable) (piece : List UInt8) :
    (c.receive sim piece).2.2.Sendable := by
  rw [receive]
  rcases hfeed : c.assembler.feed piece with ⟨e | messages, a⟩
  · exact hsim
  · exact sendable_handle hsim (hc.feed_countable hfeed)

/-- What fails while the responses go out is the sink. -/
theorem flush_ne_wire (hposted : ∀ p ∈ sim.posted, (Message.response p.2).Fits) (e : WireError) :
    (c.flush sim).1 ≠ .error (.wire e) := by
  suffices hall : ∀ (sink : Sink) (posted : List (Channel × Response)),
      (∀ p ∈ posted, (Message.response p.2).Fits) →
        (flushFrom c.channel sink posted).1 ≠ .error (.wire e) from
    hall c.sink sim.posted hposted
  intro sink posted
  induction posted generalizing sink with
  | nil => exact fun _ h => by cases h
  | cons p posted ih =>
      intro hposted
      obtain ⟨hp, hrest⟩ := List.forall_mem_cons.mp hposted
      obtain ⟨own, r⟩ := p
      have hsent (sink : Sink) :
          (flushFrom c.channel sink posted).1.map (· + 1) ≠ .error (.wire e) := by
        have hothers := ih sink hrest
        generalize (flushFrom c.channel sink posted).1 = sent at hothers ⊢
        cases sent with
        | error cause => exact fun h => hothers (by cases h; rfl)
        | ok n => exact fun h => by cases h
      rw [flushFrom]
      split
      · split
        · rename_i cause hsend
          rw [send, Message.frame_of_le hp] at hsend
          dsimp only at hsend
          split at hsend
          · cases hsend
            exact fun h => by cases h
          · cases hsend
        · exact hsent _
      · exact ih sink hrest

theorem flushFrom_sublist (channel : Channel) (sink : Sink) (posted : List (Channel × Response)) :
    (flushFrom channel sink posted).2.2.Sublist posted := by
  induction posted generalizing sink with
  | nil => exact .refl []
  | cons p posted ih =>
      obtain ⟨own, r⟩ := p
      rw [flushFrom]
      split
      · split
        · exact .cons _ (.refl posted)
        · exact .cons _ (ih _)
      · exact .cons_cons _ (ih sink)

theorem sendable_flush (c : Connection) (hsim : sim.Sendable) : (c.flush sim).2.2.Sendable where
  waiting := hsim.waiting
  posted p hp := hsim.posted p ((flushFrom_sublist c.channel c.sink sim.posted).subset hp)

end Connection

namespace Service

/-- What happens to a service: something that the program does with the simulation, or collects from
it, pieces that peers send, responses that go out, and sinks that change. -/
inductive Move where
  | event (e : Event)
  | collect (channel : Channel)
  | receive (channel : Channel) (piece : List UInt8)
  | flush (channel : Channel)
  | sink (channel : Channel) (sink : Sink)

/-- Whether the program submits nothing that has more densities than a list in memory. -/
def Move.Countable : Move → Prop
  | .event e => ∀ c ∈ e.submissions, c.Countable
  | _ => True

/-- A service of a world before its first frame, to which no peer has sent anything. -/
def start (w : World) : Service := ⟨.ofWorld w, Connection.new⟩

def move (x : Service) : Move → Service
  | .event e => { x with simulation := x.simulation.meet e }
  | .collect channel => { x with simulation := (x.simulation.collect channel).2 }
  | .receive channel piece =>
      let (_, c, simulation) := (x.connection channel).receive x.simulation piece
      ⟨simulation, Function.update x.connection channel c⟩
  | .flush channel =>
      let (_, c, simulation) := (x.connection channel).flush x.simulation
      ⟨simulation, Function.update x.connection channel c⟩
  | .sink channel sink =>
      { x with connection :=
          Function.update x.connection channel { x.connection channel with sink } }

def moveAll (x : Service) (moves : List Move) : Service := moves.foldl move x

/-- What holds of a service whatever its peers send. -/
structure Sound (x : Service) : Prop where
  sendable : x.simulation.Sendable
  bounded : ∀ channel, (x.connection channel).assembler.Bounded
  own : ∀ channel, (x.connection channel).channel = channel

theorem sound_start (w : World) : (start w).Sound where
  sendable := ⟨fun _ h => absurd h List.not_mem_nil, fun _ h => absurd h List.not_mem_nil⟩
  bounded _ := Assembler.bounded_fresh
  own _ := rfl

variable {x : Service}

theorem Sound.update (hx : x.Sound) {sim : Simulation} (hsim : sim.Sendable) {channel : Channel}
    {c : Connection} (hc : c.assembler.Bounded) (hchannel : c.channel = channel) :
    Sound ⟨sim, Function.update x.connection channel c⟩ where
  sendable := hsim
  bounded := (Function.forall_update_iff x.connection (p := fun _ c => c.assembler.Bounded)).mpr
    ⟨hc, fun other _ => hx.bounded other⟩
  own := (Function.forall_update_iff x.connection (p := fun other c => c.channel = other)).mpr
    ⟨hchannel, fun other _ => hx.own other⟩

theorem Sound.move (hx : x.Sound) {m : Move} (hm : m.Countable) : (x.move m).Sound := by
  cases m with
  | event e =>
      refine ⟨?_, hx.bounded, hx.own⟩
      cases e with
      | submission c => exact hx.sendable.accept (hm c (List.mem_singleton_self c))
      | frame during => exact hx.sendable.frameDuring hm
  | collect channel => exact ⟨hx.sendable.collect channel, hx.bounded, hx.own⟩
  | receive channel piece =>
      have hbounded := hx.bounded channel
      have hkeeps := (Connection.receive_keeps (x.connection channel) x.simulation piece).1
      exact hx.update (Connection.sendable_receive hbounded hx.sendable piece)
        (Connection.bounded_receive hbounded x.simulation piece) (hkeeps.trans (hx.own channel))
  | flush channel =>
      exact hx.update (Connection.sendable_flush (x.connection channel) hx.sendable)
        (hx.bounded channel) (hx.own channel)
  | sink channel sink => exact hx.update hx.sendable (hx.bounded channel) (hx.own channel)

theorem Sound.moveAll (hx : x.Sound) {moves : List Move} (hmoves : ∀ m ∈ moves, m.Countable) :
    (x.moveAll moves).Sound := by
  induction moves generalizing x with
  | nil => exact hx
  | cons m moves ih =>
      obtain ⟨hm, hrest⟩ := List.forall_mem_cons.mp hmoves
      exact ih (hx.move hm) hrest

/-- Whatever the world, the operation and the token, the response travels, as long as the densities of
the operation can be counted in a word. So, whatever happens to a simulation and its connections, and
whatever peers send, sending the responses on a channel never fails for the wire's sake. While the sink
works it sends all of them, in their order, and from the bytes that are written an assembler makes
exactly these responses. -/
theorem responses_travel :
    (∀ (w : World) (op : Operation), op.densities < UInt64.size → ∀ token,
      Response.Travels ⟨token, (w.execute op).1⟩) ∧
    ∀ (w : World) (moves : List Move), (∀ m ∈ moves, m.Countable) → ∀ channel,
      let x := (start w).moveAll moves
      let c := x.connection channel
      let responses := (x.simulation.collect channel).1
      (∀ r ∈ responses, r.Travels) ∧
      (∀ e, (c.flush x.simulation).1 ≠ .error (.wire e)) ∧
      (c.sink.fault = none → ∃ frames,
        responses.map (fun r => (Message.response r).frame) = frames.map .ok ∧
        c.flush x.simulation =
          (.ok responses.length, { c with sink := c.sink.writeAll frames },
            (x.simulation.collect channel).2) ∧
        Assembler.fresh.feed frames.flatten = (.ok (responses.map .response), .fresh)) := by
  refine ⟨fun w op hop token => Response.travels_of_fits (w.response_fits_of_densities hop token),
    fun w moves hmoves channel => ?_⟩
  intro x c responses
  have hx : x.Sound := (sound_start w).moveAll hmoves
  have hposted := hx.sendable.posted
  have hown : c.channel = channel := hx.own channel
  have hresponses : ∀ r ∈ responses, (Message.response r).Fits := by
    intro r hr
    obtain ⟨p, hp, hr⟩ := List.mem_filterMap.mp hr
    obtain ⟨-, hr⟩ := Option.ite_none_right_eq_some.mp hr
    cases hr
    exact hposted p hp
  refine ⟨fun r hr => Response.travels_of_fits (hresponses r hr),
    Connection.flush_ne_wire hposted, fun hworks => ?_⟩
  refine ⟨responses.map fun r => (Message.response r).bytes, ?_, ?_, ?_⟩
  · rw [List.map_map, List.map_inj_left]
    exact fun r hr => Message.frame_of_le (hresponses r hr)
  · rw [Connection.flush_of_works hworks fun p hp _ => hposted p hp, hown]
  · have hfits : ∀ m ∈ responses.map Message.response, m.Fits := by
      intro m hm
      obtain ⟨r, hr, rfl⟩ := List.mem_map.mp hm
      exact hresponses r hr
    have hfeed := Message.feedAfter_frames hfits #[]
    rw [List.flatMap_map, List.flatMap_def] at hfeed
    exact hfeed

theorem responses_travel_refused :
    let op : Operation := .terraformRaise ⟨1, 1, 2, #[0.5], 0.1⟩
    let ask := (Message.command ⟨9, op⟩).bytes
    let moves : List Move := [.receive 7 (ask.take 11), .receive 7 (ask.drop 11), .event (.frame [])]
    let x := (start (.new 1)).moveAll moves
    let refused : Response :=
      ⟨9, .failure (.invalidArgument "density map has 1 entries, expected 4")⟩
    Response.Travels ⟨9, ((World.new 1).execute op).1⟩ ∧
      (x.simulation.collect 7).1 = [refused] ∧ refused.Travels ∧
      ∃ frames : List (List UInt8), [(Message.response refused).frame] = frames.map .ok ∧
        ((x.connection 7).flush x.simulation).1 = .ok 1 ∧
        Assembler.fresh.feed frames.flatten = (.ok [.response refused], .fresh) := by
  intro op ask moves x refused
  obtain ⟨hexecuted, hserved⟩ := responses_travel
  have hmoves : ∀ m ∈ moves, m.Countable := by simp [moves, Move.Countable, Event.submissions]
  have hcollected : (x.simulation.collect 7).1 = [refused] := by decide +kernel
  obtain ⟨htravel, -, hflush⟩ := hserved (.new 1) moves hmoves 7
  obtain ⟨frames, hframes, hsent, hfeed⟩ := hflush (by decide +kernel)
  change ∀ r ∈ (x.simulation.collect 7).1, r.Travels at htravel
  change (x.simulation.collect 7).1.map _ = _ at hframes
  change _ = (Except.ok (x.simulation.collect 7).1.length, _) at hsent
  change _ = (Except.ok ((x.simulation.collect 7).1.map _), _) at hfeed
  rw [hcollected] at htravel hframes hsent hfeed
  exact ⟨hexecuted (.new 1) op (by decide) 9, hcollected,
    htravel refused (List.mem_singleton_self refused), frames, hframes, congrArg Prod.fst hsent,
    hfeed⟩

end Service

end Terrarium
