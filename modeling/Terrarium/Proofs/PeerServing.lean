import Terrarium.Proofs.PeerTranscript

/-!
Serving a peer from reads. Each read is a call with its bytes, and after it the responses that have
come in go out. Whatever others do with the simulation between the reads, the commands that are
submitted and the pongs that are written are those of the calls.
-/
namespace Terrarium

/-- The bytes that a read gives. -/
def Read.bytes? : Read → Option (List UInt8)
  | .bytes s => some s
  | _ => none

/-- Whether a read was interrupted, or gave some bytes and not more than are read at once. -/
def Read.Proper : Read → Prop
  | .bytes s => 1 ≤ s.length ∧ s.length ≤ Connection.readSize
  | .interrupted => True
  | .failed _ => False

instance : DecidablePred Read.Proper
  | .bytes s => inferInstanceAs (Decidable (1 ≤ s.length ∧ s.length ≤ Connection.readSize))
  | .interrupted => .isTrue trivial
  | .failed _ => .isFalse id

/-- Whether there is a frame for each response that waits on a channel. -/
def Simulation.Deliverable (s : Simulation) (channel : Channel) : Prop :=
  ∀ p ∈ s.posted, p.1 = channel → (Message.response p.2).Fits

theorem Simulation.deliverable_collect (s : Simulation) (channel : Channel) :
    (s.collect channel).2.Deliverable channel := by
  intro p hp hown
  obtain ⟨-, hother⟩ := List.mem_filter.mp hp
  exact absurd hown (of_decide_eq_true hother)

namespace Connection

/-- Calls in turn on one simulation until one of them fails, and the messages they count. -/
def receiveUntil (c : Connection) (sim : Simulation) :
    List (List UInt8) → Except ServerError Nat × Connection × Simulation
  | [] => (.ok 0, c, sim)
  | piece :: pieces =>
      match c.receive sim piece with
      | (.error e, c, sim) => (.error e, c, sim)
      | (.ok n, c, sim) =>
          let (count, c, sim) := c.receiveUntil sim pieces
          (count.map (n + ·), c, sim)

/-- A read, and what others do with the simulation before it. -/
structure Turn where
  change : Simulation → Simulation
  read : Read

def Turn.bytes? (t : Turn) : Option (List UInt8) := t.read.bytes?

/-- Serves a peer while others use the simulation, too. -/
def serveAmong (c : Connection) (sim : Simulation) :
    List Turn → Except ServerError Unit × Connection × Simulation
  | [] =>
      let (sent, c, sim) := c.flush sim
      (sent.map fun _ => (), c, sim)
  | ⟨change, .bytes []⟩ :: _ =>
      let (sent, c, sim) := c.flush (change sim)
      (sent.map fun _ => (), c, sim)
  | ⟨change, .interrupted⟩ :: rest => c.serveAmong (change sim) rest
  | ⟨change, .failed text⟩ :: _ => (.error (.io text), c, change sim)
  | ⟨change, .bytes s⟩ :: rest =>
      match c.serveAll (change sim) (pieces readSize s) with
      | (.error e, c, sim) => (.error e, c, sim)
      | (.ok _, c, sim) => c.serveAmong sim rest

/-- What serving turns that complete these messages between them makes of the sink and the
simulation: with each read the call takes its messages, and then the responses go out that wait on
the channel. -/
inductive Served (channel : Channel) :
    List Turn → List Message → Sink × Simulation → Sink × Simulation → Prop where
  | nil (s : Sink × Simulation) : Served channel [] [] s s
  | interrupted {change : Simulation → Simulation} {turns : List Turn} {messages : List Message}
      {sink : Sink} {sim : Simulation} {last : Sink × Simulation}
      (hlater : Served channel turns messages (sink, change sim) last) :
      Served channel (⟨change, .interrupted⟩ :: turns) messages (sink, sim) last
  | bytes {change : Simulation → Simulation} {piece : List UInt8} {turns : List Turn}
      {now later : List Message} {sink : Sink} {sim : Simulation} {last : Sink × Simulation}
      {left : Left} {frames : List (List UInt8)}
      (hnow : left.Takes channel ⟨change sim, sink, piece⟩ now)
      (hframes : (left.simulation.collect channel).1.map (fun r => (Message.response r).frame) =
        frames.map .ok)
      (hlater : Served channel turns later
        (left.sink.writeAll frames, (left.simulation.collect channel).2) last) :
      Served channel (⟨change, .bytes piece⟩ :: turns) (now ++ later) (sink, sim) last

/-- How serving ends, by how the reading of the whole stream goes. -/
def Ends (c : Connection) (sim : Simulation) (turns : List Turn) :
    List Message × Frame.Ending → Prop
  | (messages, .waiting _) =>
      ∃ (sink : Sink) (last : Simulation) (frames : List (List UInt8)) (a : Assembler),
        Served c.channel turns messages (c.sink, sim) (sink, last) ∧
        (last.collect c.channel).1.map (fun r => (Message.response r).frame) = frames.map .ok ∧
        c.serveAmong sim turns =
          (.ok (), ⟨c.channel, a, sink.writeAll frames⟩, (last.collect c.channel).2)
  | (messages, .failed e rest) =>
      ∃ (before : List Turn) (change : Simulation → Simulation) (after : List Turn)
        (front back : List UInt8) (earlier lost : List Message) (needed : Nat) (sink : Sink)
        (last : Simulation),
        turns = before ++ ⟨change, .bytes (front ++ back)⟩ :: after ∧ front ≠ [] ∧
        rest = back ++ (after.filterMap Turn.bytes?).flatten ∧ messages = earlier ++ lost ∧
        c.assembler.readAll (before.filterMap Turn.bytes?).flatten = (earlier, .waiting needed) ∧
        Served c.channel before earlier (c.sink, sim) (sink, last) ∧
        c.serveAmong sim turns = (.error (.wire e), ⟨c.channel, .fresh, sink⟩, change last)

variable {c : Connection} {sim : Simulation} {messages : List Message}

theorem flush_eq (hposted : ∀ p ∈ sim.posted, p.1 ≠ c.channel) : c.flush sim = (.ok 0, c, sim) := by
  have hflush (posted : List (Channel × Response)) (hothers : ∀ p ∈ posted, p.1 ≠ c.channel) :
      flushFrom c.channel c.sink posted = (.ok 0, c.sink, posted) := by
    induction posted with
    | nil => rfl
    | cons p posted ih =>
        obtain ⟨hp, hrest⟩ := List.forall_mem_cons.mp hothers
        rw [flushFrom, if_neg hp, ih hrest]
  rw [flush, hflush sim.posted hposted]

theorem send_of_fits {sink : Sink} (hworks : sink.fault = none) {m : Message} (hm : m.Fits) :
    send sink m = .ok (sink.writeAll [m.bytes]) := by
  rw [send, Message.frame_of_le hm]
  simp [Sink.write, Sink.writeAll, Message.bytes, hworks]

theorem flushFrom_of_works (channel : Channel) {sink : Sink} (hworks : sink.fault = none)
    {posted : List (Channel × Response)}
    (hposted : ∀ p ∈ posted, p.1 = channel → (Message.response p.2).Fits) :
    let own := posted.filterMap fun (c, r) => if c = channel then some r else none
    flushFrom channel sink posted =
      (.ok own.length, sink.writeAll (own.map fun r => (Message.response r).bytes),
        posted.filter fun (c, _) => c ≠ channel) := by
  induction posted generalizing sink with
  | nil => rfl
  | cons p posted ih =>
      obtain ⟨hp, hrest⟩ := List.forall_mem_cons.mp hposted
      obtain ⟨own, r⟩ := p
      by_cases hown : own = channel
      · subst hown
        have hwritten : (sink.writeAll [(Message.response r).bytes]).fault = none := hworks
        have hflush := ih hwritten hrest
        dsimp only at hflush ⊢
        rw [flushFrom, if_pos rfl, send_of_fits hworks (hp rfl)]
        dsimp only
        rw [hflush, Sink.writeAll_append]
        simp [Except.map]
      · have hflush := ih hworks hrest
        dsimp only at hflush ⊢
        rw [flushFrom, if_neg hown, hflush]
        simp [hown]

theorem flush_of_works (hworks : c.sink.fault = none)
    (hposted : sim.Deliverable c.channel) :
    c.flush sim =
      (.ok (sim.collect c.channel).1.length,
        ⟨c.channel, c.assembler, c.sink.writeAll
          ((sim.collect c.channel).1.map fun r => (Message.response r).bytes)⟩,
        (sim.collect c.channel).2) := by
  rw [flush, flushFrom_of_works c.channel hworks hposted]
  rfl

theorem exists_flush (hworks : c.sink.fault = none) (hposted : sim.Deliverable c.channel) :
    ∃ frames : List (List UInt8),
      (sim.collect c.channel).1.map (fun r => (Message.response r).frame) = frames.map .ok ∧
      c.flush sim =
        (.ok (sim.collect c.channel).1.length, { c with sink := c.sink.writeAll frames },
          (sim.collect c.channel).2) := by
  refine ⟨(sim.collect c.channel).1.map fun r => (Message.response r).bytes, ?_,
    flush_of_works hworks hposted⟩
  rw [List.map_map, List.map_inj_left]
  intro r hr
  obtain ⟨p, hp, hr⟩ := List.mem_filterMap.mp hr
  obtain ⟨hown, hr⟩ := Option.ite_none_right_eq_some.mp hr
  obtain rfl := Option.some.inj hr
  exact Message.frame_of_le (hposted p hp hown)

theorem pieces_eq {α : Type} {size : Nat} {s : List α} (hpos : 1 ≤ s.length)
    (hsize : s.length ≤ size) : pieces size s = [s] := by
  cases s with
  | nil => simp at hpos
  | cons a s =>
      rw [List.length_cons] at hsize
      have hfits : s.length ≤ size - 1 := by omega
      rw [pieces, List.take_of_length_le hfits, List.drop_eq_nil_of_le hfits, pieces]

theorem serveAll_pieces (hposted : ∀ p ∈ sim.posted, p.1 ≠ c.channel) {s : List UInt8}
    (hpos : 1 ≤ s.length) (hsize : s.length ≤ readSize) :
    c.serveAll sim (pieces readSize s) =
      ((c.receive sim s).1.map fun _ => (), (c.receive sim s).2) := by
  have hkeeps := receive_keeps c sim s
  rw [pieces_eq hpos hsize, serveAll, serveBytes]
  rcases hreceive : c.receive sim s with ⟨e | n, c', sim'⟩
  · rfl
  · rw [hreceive] at hkeeps
    obtain ⟨hchannel, hsame⟩ := hkeeps
    dsimp only at hchannel hsame ⊢
    rw [flush_eq (hsame ▸ hchannel ▸ hposted)]
    rfl

theorem serve_bytes (c : Connection) (sim : Simulation) {s : List UInt8} (hs : s ≠ [])
    (reads : List Read) :
    c.serve sim (.bytes s :: reads) =
      match c.serveAll sim (pieces readSize s) with
      | (.error e, c, sim) => (.error e, c, sim)
      | (.ok _, c, sim) => c.serve sim reads := by
  cases s with
  | nil => contradiction
  | cons b s => rfl

/-- Serving a peer is taking the bytes of each read in turn, until one of these calls fails. -/
theorem serve_eq (hposted : ∀ p ∈ sim.posted, p.1 ≠ c.channel) {reads : List Read}
    (hreads : ∀ r ∈ reads, r.Proper) :
    c.serve sim reads =
      ((c.receiveUntil sim (reads.filterMap Read.bytes?)).1.map fun _ => (),
        (c.receiveUntil sim (reads.filterMap Read.bytes?)).2) := by
  induction reads generalizing c sim with
  | nil =>
      rw [serve, flush_eq hposted]
      rfl
  | cons r reads ih =>
      obtain ⟨hr, hrest⟩ := List.forall_mem_cons.mp hreads
      cases r with
      | failed text => exact hr.elim
      | interrupted => exact ih hposted hrest
      | bytes s =>
          obtain ⟨hpos, hsize⟩ := hr
          have hne : s ≠ [] := List.length_pos_iff.mp hpos
          have hpieces : (Read.bytes s :: reads).filterMap Read.bytes? =
              s :: reads.filterMap Read.bytes? := rfl
          have hkeeps := receive_keeps c sim s
          rw [serve_bytes c sim hne, serveAll_pieces hposted hpos hsize, hpieces, receiveUntil]
          rcases hreceive : c.receive sim s with ⟨e | n, c', sim'⟩
          · rfl
          · rw [hreceive] at hkeeps
            obtain ⟨hchannel, hsame⟩ := hkeeps
            dsimp only at hchannel hsame
            refine (ih (hsame ▸ hchannel ▸ hposted) hrest).trans ?_
            dsimp only
            generalize c'.receiveUntil sim' (reads.filterMap Read.bytes?) = last
            rcases last with ⟨e | count, last⟩ <;> rfl

theorem serveAmong_bytes (c : Connection) (sim : Simulation) (change : Simulation → Simulation)
    {s : List UInt8} (hs : s ≠ []) (turns : List Turn) :
    c.serveAmong sim (⟨change, .bytes s⟩ :: turns) =
      match c.serveAll (change sim) (pieces readSize s) with
      | (.error e, c, sim) => (.error e, c, sim)
      | (.ok _, c, sim) => c.serveAmong sim turns := by
  cases s with
  | nil => contradiction
  | cons b s => rfl

theorem serveAmong_id (c : Connection) (sim : Simulation) (reads : List Read) :
    c.serveAmong sim (reads.map (⟨id, ·⟩)) = c.serve sim reads := by
  induction reads generalizing c sim with
  | nil => rfl
  | cons r reads ih =>
      cases r with
      | interrupted => exact ih c sim
      | failed text => rfl
      | bytes s =>
          cases s with
          | nil => rfl
          | cons b s =>
              rw [List.map_cons, serveAmong_bytes c sim id (List.cons_ne_nil b s), id,
                serve_bytes c sim (List.cons_ne_nil b s)]
              simp only [ih]

theorem exists_serveAll_ok {a : Assembler} {piece : List UInt8} (hworks : c.sink.fault = none)
    (hposted : sim.Deliverable c.channel) (hpos : 1 ≤ piece.length)
    (hsize : piece.length ≤ readSize) (hfeed : c.assembler.feed piece = (.ok messages, a)) :
    ∃ (left : Left) (frames : List (List UInt8)),
      left.Takes c.channel ⟨sim, c.sink, piece⟩ messages ∧
      (left.simulation.collect c.channel).1.map (fun r => (Message.response r).frame) =
        frames.map .ok ∧
      c.serveAll sim (pieces readSize piece) =
        (.ok (), ⟨c.channel, a, left.sink.writeAll frames⟩,
          (left.simulation.collect c.channel).2) := by
  let next : Connection := { c with
    assembler := a
    sink := c.sink.writeAll ((messages.filterMap Message.pong?).map Message.bytes) }
  let submitted := sim.submitAll c.channel (messages.filterMap Message.command?)
  have hreceive : c.receive sim piece = (.ok messages.length, next, submitted) :=
    receive_ok hworks hfeed
  have hdeliverable : submitted.Deliverable c.channel := by
    have hsame : submitted.posted = sim.posted := sim.posted_submitAll c.channel _
    exact fun p hp => hposted p (hsame ▸ hp)
  obtain ⟨frames, hframes, hflush⟩ := exists_flush (c := next) hworks hdeliverable
  refine ⟨⟨.ok messages.length, submitted, next.sink⟩, frames,
    ⟨rfl, rfl, _, Message.map_frame_pongs messages, rfl⟩, hframes, ?_⟩
  rw [pieces_eq hpos hsize, serveAll, serveBytes, hreceive]
  dsimp only
  rw [hflush]
  rfl

theorem serveAll_error {e : WireError} {piece : List UInt8} (hpos : 1 ≤ piece.length)
    (hsize : piece.length ≤ readSize) (hfeed : c.assembler.feed piece = (.error e, .fresh)) :
    c.serveAll sim (pieces readSize piece) =
      (.error (.wire e), ⟨c.channel, .fresh, c.sink⟩, sim) := by
  rw [pieces_eq hpos hsize, serveAll, serveBytes, receive_error hfeed]

theorem Ends.interrupted {change : Simulation → Simulation} {turns : List Turn}
    {read : List Message × Frame.Ending} (h : c.Ends (change sim) turns read) :
    c.Ends sim (⟨change, .interrupted⟩ :: turns) read := by
  obtain ⟨messages, needed | ⟨e, rest⟩⟩ := read
  · obtain ⟨sink, last, frames, a, hserved, hframes, hserve⟩ := h
    exact ⟨sink, last, frames, a, .interrupted hserved, hframes, hserve⟩
  · obtain ⟨before, change', after, front, back, earlier, lost, needed, sink, last, rfl, hfront,
      hrest, hmessages, hread, hserved, hserve⟩ := h
    exact ⟨⟨change, .interrupted⟩ :: before, change', after, front, back, earlier, lost, needed,
      sink, last, rfl, hfront, hrest, hmessages, hread, .interrupted hserved, hserve⟩

/-- A turn that completes messages, and how the others end that go on from there. -/
theorem Ends.bytes {change : Simulation → Simulation} {piece : List UInt8} {turns : List Turn}
    {a : Assembler} {left : Left} {frames : List (List UInt8)} {s : List UInt8}
    (h : Ends ⟨c.channel, a, left.sink.writeAll frames⟩ (left.simulation.collect c.channel).2 turns
      (a.readAll s))
    (hunfinished : c.assembler.Unfinished) (hfeed : c.assembler.feed piece = (.ok messages, a))
    (hleft : left.Takes c.channel ⟨change sim, c.sink, piece⟩ messages)
    (hframes : (left.simulation.collect c.channel).1.map (fun r => (Message.response r).frame) =
      frames.map .ok)
    (hserve : c.serveAmong sim (⟨change, .bytes piece⟩ :: turns) =
      serveAmong ⟨c.channel, a, left.sink.writeAll frames⟩ (left.simulation.collect c.channel).2
        turns) :
    c.Ends sim (⟨change, .bytes piece⟩ :: turns) (c.assembler.readAll (piece ++ s)) := by
  rw [(Assembler.readAll_feed_ok hunfinished hfeed s).2]
  rcases hreads : a.readAll s with ⟨later, needed | ⟨e, rest⟩⟩
  · rw [hreads] at h
    obtain ⟨sink, last, sent, a', hserved, hsent, hlast⟩ := h
    exact ⟨sink, last, sent, a', .bytes hleft hframes hserved, hsent, hserve.trans hlast⟩
  · rw [hreads] at h
    obtain ⟨before, change', after, front, back, earlier, lost, needed, sink, last, rfl, hfront,
      hrest, rfl, hread, hserved, hlast⟩ := h
    refine ⟨⟨change, .bytes piece⟩ :: before, change', after, front, back, messages ++ earlier,
      lost, needed, sink, last, rfl, hfront, hrest, (List.append_assoc _ _ _).symm, ?_,
      .bytes hleft hframes hserved, hserve.trans hlast⟩
    have hbytes : (Turn.mk change (.bytes piece) :: before).filterMap Turn.bytes? =
        piece :: before.filterMap Turn.bytes? := rfl
    rw [hbytes, List.flatten_cons, (Assembler.readAll_feed_ok hunfinished hfeed _).2, hread]

theorem ends_readAll (hunfinished : c.assembler.Unfinished) (hworks : c.sink.fault = none)
    (hposted : sim.Deliverable c.channel) {turns : List Turn}
    (hproper : ∀ t ∈ turns, t.read.Proper)
    (hchange : ∀ t ∈ turns, ∀ sim : Simulation, sim.Deliverable c.channel →
      (t.change sim).Deliverable c.channel) :
    c.Ends sim turns (c.assembler.readAll (turns.filterMap Turn.bytes?).flatten) := by
  induction turns generalizing c sim with
  | nil =>
      obtain ⟨frames, hframes, hflush⟩ := exists_flush hworks hposted
      rw [List.filterMap_nil, List.flatten_nil, Assembler.readAll_nil hunfinished]
      refine ⟨c.sink, sim, frames, c.assembler, .nil _, hframes, ?_⟩
      rw [serveAmong, hflush]
      rfl
  | cons t turns ih =>
      obtain ⟨change, read⟩ := t
      obtain ⟨ht, hproper'⟩ := List.forall_mem_cons.mp hproper
      obtain ⟨hnow, hchange'⟩ := List.forall_mem_cons.mp hchange
      cases read with
      | failed text => exact ht.elim
      | interrupted =>
          exact (ih hunfinished hworks (hnow sim hposted) hproper' hchange').interrupted
      | bytes piece =>
          obtain ⟨hpos, hsize⟩ := ht
          have hserve := serveAmong_bytes c sim change (List.length_pos_iff.mp hpos) turns
          have hbytes : (Turn.mk change (.bytes piece) :: turns).filterMap Turn.bytes? =
              piece :: turns.filterMap Turn.bytes? := rfl
          rw [hbytes, List.flatten_cons]
          rcases Assembler.readAll_feed hunfinished piece (turns.filterMap Turn.bytes?).flatten with
            ⟨now, a, hfeed, ha, -⟩ | ⟨e, lost, front, back, hfeed, rfl, hfront, hread⟩
          · obtain ⟨left, frames, hleft, hframes, hturn⟩ :=
              exists_serveAll_ok hworks (hnow sim hposted) hpos hsize hfeed
            have hworks' : (left.sink.writeAll frames).fault = none := by
              obtain ⟨-, -, written, -, hsink⟩ := hleft
              rwa [hsink]
            have hnext := Simulation.deliverable_collect left.simulation c.channel
            have hrest := ih (c := ⟨c.channel, a, left.sink.writeAll frames⟩) ha hworks' hnext
              hproper' hchange'
            exact hrest.bytes hunfinished hfeed hleft hframes (by rw [hserve, hturn])
          · rw [hread]
            refine ⟨[], change, turns, front, back, [], lost, _, c.sink, sim, rfl, hfront, rfl, rfl,
              Assembler.readAll_nil hunfinished, .nil _, ?_⟩
            rw [hserve, serveAll_error hpos hsize hfeed]

end Connection

namespace Assembler

theorem feedAfter_prefix (front found : Array Message) (a : Assembler) (s : List UInt8) :
    a.feedAfter (front ++ found) s =
      ((a.feedAfter found s).1.map (front.toList ++ ·), (a.feedAfter found s).2) := by
  induction s generalizing a found with
  | nil => simp [feedAfter, Except.map]
  | cons b s ih =>
      rw [feedAfter, feedAfter]
      rcases a.push b with e | ⟨_ | m, a'⟩
      · rfl
      · exact ih found a'
      · dsimp only
        rw [← Array.append_push, ih]

theorem feedAfter_split {a a' : Assembler} {found : Array Message} {s : List UInt8}
    {now : List Message} (h : a.feedAfter found s = (.ok now, a')) (t : List UInt8) :
    a.feedAfter found (s ++ t) = a'.feedAfter now.toArray t := by
  induction s generalizing a found with
  | nil =>
      rw [feedAfter] at h
      cases h
      rfl
  | cons b s ih =>
      rw [feedAfter] at h
      rw [List.cons_append, feedAfter]
      rcases hpush : a.push b with e | ⟨_ | m, a''⟩
      · simp [hpush] at h
      · rw [hpush] at h
        exact ih h
      · rw [hpush] at h
        exact ih h

theorem feed_append {a a' a'' : Assembler} {s t : List UInt8} {now later : List Message}
    (hnow : a.feed s = (.ok now, a')) (hlater : a'.feed t = (.ok later, a'')) :
    a.feed (s ++ t) = (.ok (now ++ later), a'') := by
  have hprefix := feedAfter_prefix now.toArray #[] a' t
  rw [Array.append_empty] at hprefix
  rw [feed] at hlater
  rw [feed, feedAfter_split hnow, hprefix, hlater]
  rfl

theorem exists_feed {a : Assembler} (ha : a.Unfinished) {s : List UInt8} {messages : List Message}
    {needed : Nat} (hread : a.readAll s = (messages, .waiting needed)) :
    ∃ a', a.feed s = (.ok messages, a') ∧ a'.Unfinished := by
  rcases readAll_feed ha s [] with
    ⟨found, a', hfeed, ha', hfound⟩ | ⟨e, found, front, back, -, -, -, hfailed⟩
  · rw [List.append_nil, hread, readAll_nil ha', List.append_nil] at hfound
    obtain ⟨rfl, -⟩ := Prod.mk.inj hfound
    exact ⟨a', hfeed, ha'⟩
  · rw [List.append_nil, hread] at hfailed
    simp at hfailed

end Assembler

namespace Connection

variable {c : Connection} {sim : Simulation} {messages : List Message}

theorem exists_receive_append {a a' : Assembler} {s t : List UInt8} {now later : List Message}
    (sim : Simulation) (hworks : c.sink.fault = none) (hnow : c.assembler.feed s = (.ok now, a))
    (hlater : a.feed t = (.ok later, a')) :
    ∃ c' sim', c.receive sim s = (.ok now.length, c', sim') ∧ c'.assembler = a ∧
      c'.sink.fault = none ∧
        c'.receive sim' t = (.ok later.length, (c.receive sim (s ++ t)).2) := by
  let next : Connection := { c with
    assembler := a
    sink := c.sink.writeAll ((now.filterMap Message.pong?).map Message.bytes) }
  refine ⟨next, _, receive_ok hworks hnow, rfl, hworks, ?_⟩
  rw [receive_ok hworks (Assembler.feed_append hnow hlater), receive_ok (c := next) hworks hlater]
  simp [next, Sink.writeAll_append, Simulation.submitAll_append]

theorem receiveUntil_eq (hunfinished : c.assembler.Unfinished) (hworks : c.sink.fault = none)
    {pieces : List (List UInt8)} {needed : Nat}
    (hread : c.assembler.readAll pieces.flatten = (messages, .waiting needed)) :
    c.receiveUntil sim pieces = (.ok messages.length, (c.receive sim pieces.flatten).2) := by
  induction pieces generalizing c sim messages with
  | nil =>
      rw [List.flatten_nil, Assembler.readAll_nil hunfinished] at hread
      obtain ⟨rfl, -⟩ := Prod.mk.inj hread
      rfl
  | cons piece pieces ih =>
      rw [List.flatten_cons] at hread ⊢
      rcases Assembler.readAll_feed hunfinished piece pieces.flatten with
        ⟨now, a, hfeed, ha, hrest⟩ | ⟨e, lost, front, back, -, -, -, hfailed⟩
      · rw [hread] at hrest
        obtain ⟨rfl, hwaiting⟩ := Prod.mk.inj hrest
        have hlater : a.readAll pieces.flatten = (_, .waiting needed) :=
          Prod.ext rfl hwaiting.symm
        obtain ⟨last, hlast, -⟩ := Assembler.exists_feed ha hlater
        obtain ⟨c', sim', hfirst, rfl, hworks', hsecond⟩ :=
          exists_receive_append sim hworks hfeed hlast
        rw [receiveUntil, hfirst]
        dsimp only
        rw [ih ha hworks' hlater, hsecond, List.length_append]
        rfl
      · rw [hread] at hfailed
        simp at hfailed

/-- However the bytes of a peer are cut, and whatever happens to the simulation and to the sink
between the calls: as long as no piece completes anything wrong, the calls of a new connection count
the messages of the stream, submit the commands among them and write a pong for each ping, in the
order of the stream, and nothing else. The first piece that completes a wrong header or payload is
met with the error, without any effect, and from there on the calls are those of a new connection.
Serving the reads of the stream is taking the bytes of each in turn up to the first error; and where
there is none, it is taking the whole stream at once. Where others use the simulation between the
reads, so that responses come in, these go out after the pongs of a read, and else the same is
submitted and written up to the same error. -/
theorem new_transcript (channel : Channel) :
    (∀ visits : List Visit, (∀ v ∈ visits, v.sink.fault = none) →
      (new channel).Leaves visits (Frame.readAll (visits.map (·.piece)).flatten)) ∧
    (∀ (sim : Simulation) (reads : List Read), (∀ p ∈ sim.posted, p.1 ≠ channel) →
      (∀ r ∈ reads, r.Proper) →
      let pieces := reads.filterMap Read.bytes?
      (new channel).serve sim reads =
        (((new channel).receiveUntil sim pieces).1.map fun _ => (),
          ((new channel).receiveUntil sim pieces).2) ∧
        ∀ messages needed, Frame.readAll pieces.flatten = (messages, .waiting needed) →
          (new channel).receiveUntil sim pieces =
            (.ok messages.length, ((new channel).receive sim pieces.flatten).2)) ∧
    (∀ (sim : Simulation) (turns : List Turn), sim.Deliverable channel →
      (∀ t ∈ turns, t.read.Proper) →
      (∀ t ∈ turns, ∀ sim : Simulation, sim.Deliverable channel →
        (t.change sim).Deliverable channel) →
      (new channel).Ends sim turns (Frame.readAll (turns.filterMap Turn.bytes?).flatten)) ∧
    ∀ (sim : Simulation) (reads : List Read),
      (new channel).serveAmong sim (reads.map (⟨id, ·⟩)) = (new channel).serve sim reads := by
  refine ⟨?_, ?_, ?_, serveAmong_id (new channel)⟩
  · intro visits hworks
    exact leaves_readAll (c := new channel) Assembler.unfinished_fresh hworks
  · intro sim reads hposted hreads pieces
    refine ⟨serve_eq (c := new channel) hposted hreads, ?_⟩
    intro messages needed hread
    exact receiveUntil_eq (c := new channel) Assembler.unfinished_fresh rfl hread
  · intro sim turns hposted hproper hchange
    exact ends_readAll (c := new channel) Assembler.unfinished_fresh rfl hposted hproper hchange

theorem new_transcript_cut :
    let ping := (Message.link (.ping 41)).bytes
    let wrong := ping ++ List.replicate 8 0xee
    let sim := Simulation.ofWorld (.new 1)
    let reads : List Read :=
      [.bytes (ping.take 11), .interrupted, .bytes (ping.drop 11 ++ ping), .bytes wrong,
        .bytes ping]
    let response : Response := ⟨3, .failure .outOfBounds⟩
    let post : Simulation → Simulation := fun s => { s with posted := s.posted ++ [(7, response)] }
    let turns : List Turn := [⟨post, .bytes ping⟩, ⟨post, .interrupted⟩]
    (new 7).Leaves [⟨sim, .empty, wrong⟩] (Frame.readAll wrong) ∧
      ((new 7).serve sim reads).1 = .error (.wire (.unknownClass 0xeeeeeeee)) ∧
      ((new 7).serve sim reads).2.1.sink.written.length = 2 ∧
      (new 7).Ends sim turns (Frame.readAll ping) ∧
      ((new 7).serveAmong sim turns).2.1.sink.written =
        [(Message.response response).bytes, (Message.response response).bytes,
          (Message.link (.pong 41)).bytes] := by
  intro ping wrong sim reads response post turns
  have hposted : ∀ p ∈ sim.posted, p.1 ≠ 7 := fun p hp => absurd hp List.not_mem_nil
  have hreads : ∀ r ∈ reads, r.Proper := by decide +kernel
  have hproper : ∀ t ∈ turns, t.read.Proper := by decide +kernel
  have hfits : (Message.response response).Fits := by decide +kernel
  have hpost (s : Simulation) (hs : s.Deliverable 7) : (post s).Deliverable 7 := by
    intro p hp hown
    rcases List.mem_append.mp hp with hp | hp
    · exact hs p hp hown
    · obtain rfl := List.mem_singleton.mp hp
      exact hfits
  have hchange : ∀ t ∈ turns, ∀ s : Simulation, s.Deliverable 7 → (t.change s).Deliverable 7 :=
    List.forall_mem_cons.mpr ⟨hpost, List.forall_mem_singleton.mpr hpost⟩
  obtain ⟨hvisits, hserves, hends, -⟩ := new_transcript 7
  obtain ⟨hserve, -⟩ := hserves sim reads hposted hreads
  refine ⟨?_, ?_, ?_, ?_, ?_⟩
  · exact hvisits [⟨sim, .empty, wrong⟩] (List.forall_mem_singleton.mpr rfl)
  · rw [hserve]
    decide +kernel
  · rw [hserve]
    decide +kernel
  · exact hends sim turns (fun p hp => absurd hp List.not_mem_nil) hproper hchange
  · decide +kernel

end Connection

end Terrarium
