import Terrarium.Proofs.DelimitedItems
import Terrarium.Proofs.PeerTranscript

namespace Terrarium

open Cbor

/-- A frame with another class in its header. -/
def Frame.withClass (c : MessageClass) (frame : List UInt8) : List UInt8 :=
  littleEndian 4 c.code.toNat ++ frame.drop 4

/-- What a call leaves of which nothing comes. -/
def Connection.Visit.idle (v : Connection.Visit) : Connection.Left := ⟨.ok 0, v.simulation, v.sink⟩

/-- Takes pieces in turn, and gives how each of them went. -/
def StreamEnd.receiveAll (e : StreamEnd) :
    List (List UInt8) → List (Except TransportError Unit) × StreamEnd
  | [] => ([], e)
  | piece :: pieces =>
      let (result, e) := e.receive piece
      let (results, e) := e.receiveAll pieces
      (result :: results, e)

namespace Cbor

variable {α σ : Type}

theorem times_succ (step : σ → List UInt8 → Reading σ) (n : Nat) (a : σ) (s : List UInt8) :
    times step (n + 1) a s = (times step n a s).bind fun r => step r.1 r.2 := by
  induction n generalizing a s with
  | zero =>
      simp only [times, Option.bind_some]
      cases step a s <;> rfl
  | succ n ih =>
      rw [times, times]
      rcases step a s with - | ⟨b, rest⟩
      · rfl
      · exact ih b rest

theorem record_keeps {depth : Nat}
    {entry : (depth : Nat) → Option String → σ → List UInt8 → Reading σ} {a a' b : σ}
    (fields : List (String × List UInt8)) (last : String × List UInt8) {rest : List UInt8}
    (hlength : (writeRecord (fields ++ [last])).length < UInt64.size)
    (hsteps : Steps (namedStep (entry depth)) a (fields.map writeEntry) a')
    (hname : last.1.utf8ByteSize ≤ nameLimit)
    (hlast : entry depth (some last.1) a' = ignore depth a')
    (h : record (depth + 1) entry a (writeRecord (fields ++ [last])) = some (b, rest)) :
    b = a' := by
  have hpull := pull_writeRecord hlength []
  rw [List.append_nil, List.append_nil, List.map_append, List.flatten_append, List.map_singleton,
    List.flatten_singleton] at hpull
  have hfields : (fields.map writeEntry).flatten.length < UInt64.size := by
    rw [writeRecord_eq, List.map_append, List.flatten_append] at hlength
    exact (length_lt_of_append (length_lt_of_append hlength).2).1
  have htimes := hsteps.restores_times hfields (writeEntry last)
  rw [record, mapHead, pullUntagged, pullPast_of_pull hpull (fun _ h => by cases h),
    List.length_append] at h
  change times (namedStep (entry depth)) (fields.length + 1) a _ = _ at h
  rw [List.length_map] at htimes
  rw [times_succ, htimes, Option.bind_some, writeEntry, namedStep, readName_writeText hname] at h
  dsimp only at h
  rw [hlast] at h
  exact ignore_keeps h

theorem choice_writeRecord {content : (depth : Nat) → Option String → List UInt8 → Reading α}
    {fields : List (String × List UInt8)} (hlength : (writeRecord fields).length < UInt64.size)
    (hfields : fields.length ≠ 1) (depth : Nat) :
    choice depth content (writeRecord fields) = none := by
  cases depth with
  | zero => rfl
  | succ depth =>
      have hpull := pull_writeRecord hlength []
      rw [List.append_nil, List.append_nil] at hpull
      rw [choice, pullUntagged, pullPast_of_pull hpull (fun _ h => by cases h)]
      rcases hcount : fields.length with - | - | n
      · rfl
      · exact absurd hcount hfields
      · rfl

end Cbor

theorem LinkSignal.exists_written (l : LinkSignal) :
    ∃ name content, name ∈ ["Ping", "Pong"] ∧ l.written = writeRecord ([] ++ [(name, content)]) := by
  cases l with
  | ping n => exact ⟨"Ping", _, by decide, rfl⟩
  | pong n => exact ⟨"Pong", _, by decide, rfl⟩

theorem LinkSignal.record_written {σ : Type}
    {entry : (depth : Nat) → Option String → σ → List UInt8 → Reading σ} {a b : σ} {depth : Nat}
    {l : LinkSignal} {rest : List UInt8} (hlength : l.written.length < UInt64.size)
    (hentry : ∀ name ∈ ["Ping", "Pong"], entry depth (some name) a = ignore depth a)
    (h : record (depth + 1) entry a l.written = some (b, rest)) : b = a := by
  obtain ⟨name, content, hname, hwritten⟩ := l.exists_written
  have hshort : ∀ name ∈ ["Ping", "Pong"], name.utf8ByteSize ≤ nameLimit := by decide
  rw [hwritten] at hlength h
  exact record_keeps [] (name, content) hlength (.nil a) (hshort name hname) (hentry name hname) h

namespace Command

theorem read_eq_none {depth : Nat} {s : List UInt8}
    (h : ∀ f rest, record depth entry (none, none) s = some (f, rest) → f.2 = none) :
    read depth s = none := by
  rw [read]
  split
  · rename_i token op rest hs
    cases h _ rest hs
  · rfl

theorem read_response (depth : Nat) {r : Response} (hlength : r.written.length < UInt64.size) :
    read (depth + 1) r.written = none := by
  refine read_eq_none fun f rest h => ?_
  have htoken : Steps (namedStep (entry depth)) (none, none)
      ([("token", writeUnsigned r.token.toNat)].map writeEntry) (some r.token, none) :=
    .cons (restores_entry (by decide)
      ((restores_fill (restores_word r.token)).map fun v => (v, none))) (.nil _)
  exact congrArg Prod.snd
    (record_keeps [("token", _)] ("result", r.outcome.written) hlength htoken
      (by decide : "result".utf8ByteSize ≤ nameLimit) rfl h)

theorem read_link (depth : Nat) {l : LinkSignal} (hlength : l.written.length < UInt64.size) :
    read (depth + 1) l.written = none := by
  refine read_eq_none fun f rest h => ?_
  have hentry : ∀ name ∈ ["Ping", "Pong"],
      entry depth (some name) (none, none) = ignore depth (none, none) := by
    rintro name hname
    fin_cases hname <;> rfl
  exact congrArg Prod.snd (LinkSignal.record_written hlength hentry h)

end Command

namespace Response

theorem read_eq_none {depth : Nat} {s : List UInt8}
    (h : ∀ f rest, record depth entry (none, none) s = some (f, rest) → f.2 = none) :
    read depth s = none := by
  rw [read]
  split
  · rename_i token outcome rest hs
    cases h _ rest hs
  · rfl

theorem read_command (depth : Nat) {c : Command} (hlength : c.written.length < UInt64.size) :
    read (depth + 1) c.written = none := by
  refine read_eq_none fun f rest h => ?_
  have htoken : Steps (namedStep (entry depth)) (none, none)
      ([("token", writeUnsigned c.token.toNat)].map writeEntry) (some c.token, none) :=
    .cons (restores_entry (by decide)
      ((restores_fill (restores_word c.token)).map fun v => (v, none))) (.nil _)
  exact congrArg Prod.snd
    (record_keeps [("token", _)] ("op", c.op.written) hlength htoken
      (by decide : "op".utf8ByteSize ≤ nameLimit) rfl h)

theorem read_link (depth : Nat) {l : LinkSignal} (hlength : l.written.length < UInt64.size) :
    read (depth + 1) l.written = none := by
  refine read_eq_none fun f rest h => ?_
  have hentry : ∀ name ∈ ["Ping", "Pong"],
      entry depth (some name) (none, none) = ignore depth (none, none) := by
    rintro name hname
    fin_cases hname <;> rfl
  exact congrArg Prod.snd (LinkSignal.record_written hlength hentry h)

end Response

/-- The payload of a message is no message of another class. -/
theorem Message.ofPayload?_other {m : Message} (hm : m.payload.length < UInt64.size)
    {c : MessageClass} (hc : c ≠ m.class) : ofPayload? c m.payload = none := by
  cases m with
  | link l =>
      cases c with
      | link => exact absurd rfl hc
      | command => exact congrArg (Option.map _) (Command.read_link 255 hm)
      | response => exact congrArg (Option.map _) (Response.read_link 255 hm)
  | command command =>
      cases c with
      | link => exact congrArg (Option.map _) (choice_writeRecord hm (Nat.succ_ne_self 1) nestingLimit)
      | command => exact absurd rfl hc
      | response => exact congrArg (Option.map _) (Response.read_command 255 hm)
  | response r =>
      cases c with
      | link => exact congrArg (Option.map _) (choice_writeRecord hm (Nat.succ_ne_self 1) nestingLimit)
      | command => exact congrArg (Option.map _) (Command.read_response 255 hm)
      | response => exact absurd rfl hc

namespace Assembler

/-- A stream that fails before it has made a message makes nothing of its pieces up to the one in
which it fails. -/
theorem exists_failing_piece {pieces : List (List UInt8)} {e : WireError} {rest : List UInt8}
    (h : Frame.readAll pieces.flatten = ([], .failed e rest)) :
    ∃ (before : List (List UInt8)) (front back : List UInt8) (after : List (List UInt8))
      (a : Assembler), pieces = before ++ (front ++ back) :: after ∧ front ≠ [] ∧
      rest = back ++ after.flatten ∧ fresh.feeds before = (before.map fun _ => .ok [], a) ∧
      a.feed (front ++ back) = (.error e, fresh) := by
  have hmakes := makes_readAll unfinished_fresh pieces
  rw [readAll_fresh, h] at hmakes
  obtain ⟨before, front, back, after, found, a, hpieces, hfront, hrest, hfeeds, hfound, herror⟩ :=
    hmakes
  have hempty : ∀ messages ∈ found, messages = [] :=
    List.flatten_eq_nil_iff.mp (List.prefix_nil.mp hfound)
  have hlength (a : Assembler) (pieces : List (List UInt8)) :
      (a.feeds pieces).1.length = pieces.length := by
    induction pieces generalizing a with
    | nil => rfl
    | cons piece pieces ih => exact congrArg (· + 1) (ih _)
  refine ⟨before, front, back, after, a, hpieces, hfront, hrest, ?_, herror⟩
  have hcount := hlength fresh before
  rw [hfeeds] at hcount ⊢
  rw [List.map_const', ← hcount, Prod.mk.injEq]
  refine ⟨List.eq_replicate_iff.mpr ⟨rfl, fun result hresult => ?_⟩, rfl⟩
  obtain ⟨messages, hmessages, rfl⟩ := List.mem_map.mp hresult
  rw [hempty messages hmessages]

end Assembler

namespace Connection

theorem receiveAll_idle {c : Connection} {before : List Visit} {a : Assembler}
    (hfeeds : c.assembler.feeds (before.map (·.piece)) = (before.map fun _ => .ok [], a))
    (visits : List Visit) :
    c.receiveAll (before ++ visits) =
      before.map Visit.idle ++ { c with assembler := a }.receiveAll visits := by
  induction before generalizing c with
  | nil =>
      obtain ⟨-, rfl⟩ := Prod.mk.inj hfeeds
      rfl
  | cons v before ih =>
      obtain ⟨hresults, hlast⟩ := Prod.mk.inj hfeeds
      obtain ⟨hfirst, hothers⟩ := List.cons.inj hresults
      have hfeed : c.assembler.feed v.piece = (.ok [], (c.assembler.feed v.piece).2) :=
        Prod.ext hfirst rfl
      have hrest := ih (c := { c with sink := v.sink, assembler := (c.assembler.feed v.piece).2 })
        (Prod.ext hothers hlast)
      rw [List.cons_append, receiveAll, receive, hfeed]
      dsimp only
      rw [handle]
      dsimp only
      rw [hrest]
      exact congrArg (Visit.idle v :: ·)
        (congrArg (_ ++ ·) (receiveAll_withSink { c with assembler := a } v.sink visits))

end Connection

namespace StreamEnd

theorem receiveAll_append (e : StreamEnd) (pieces more : List (List UInt8)) :
    e.receiveAll (pieces ++ more) =
      ((e.receiveAll pieces).1 ++ ((e.receiveAll pieces).2.receiveAll more).1,
        ((e.receiveAll pieces).2.receiveAll more).2) := by
  induction pieces generalizing e with
  | nil => rfl
  | cons piece pieces ih =>
      rw [List.cons_append, receiveAll, receiveAll]
      simp only [ih, List.cons_append]

theorem receiveAll_idle {e : StreamEnd} {before : List (List UInt8)} {a : Assembler}
    (hfeeds : e.assembler.feeds before = (before.map fun _ => .ok [], a)) :
    e.receiveAll before = (before.map fun _ => .ok (), { e with assembler := a }) := by
  induction before generalizing e with
  | nil =>
      obtain ⟨-, rfl⟩ := Prod.mk.inj hfeeds
      rfl
  | cons piece before ih =>
      obtain ⟨hresults, hlast⟩ := Prod.mk.inj hfeeds
      obtain ⟨hfirst, hothers⟩ := List.cons.inj hresults
      have hfeed : e.assembler.feed piece = (.ok [], (e.assembler.feed piece).2) :=
        Prod.ext hfirst rfl
      have hrest := ih (e := { e with assembler := (e.assembler.feed piece).2 })
        (Prod.ext hothers hlast)
      have hinbox : e.inbox ++ (List.filterMap response? []).toArray = e.inbox :=
        Array.append_empty
      rw [receiveAll, receive, hfeed]
      dsimp only
      rw [hinbox, hrest]
      rfl

end StreamEnd

namespace Frame

theorem withClass_frame (c : MessageClass) {m : Message} {bytes : List UInt8}
    (hframe : m.frame = .ok bytes) :
    m.payload.length ≤ maxPayload ∧ withClass c bytes = header c m.payload.length ++ m.payload := by
  by_cases hm : m.payload.length ≤ maxPayload
  · rw [Message.frame_of_le hm] at hframe
    obtain rfl := Except.ok.inj hframe
    refine ⟨hm, ?_⟩
    rw [withClass, header, List.append_assoc, List.drop_left' (length_littleEndian 4 _),
      ← List.append_assoc]
    rfl
  · rw [Message.frame_of_lt (Nat.lt_of_not_le hm)] at hframe
    cases hframe

theorem readAll_withClass {m : Message} {bytes : List UInt8} (hframe : m.frame = .ok bytes)
    {c : MessageClass} (hc : c ≠ m.class) (rest : List UInt8) :
    readAll (withClass c bytes ++ rest) = ([], .failed .malformed rest) := by
  obtain ⟨hm, hbytes⟩ := withClass_frame c hframe
  rw [hbytes, List.append_assoc, readAll_append (length_header c _), readHeader_header c hm]
  dsimp only
  rw [Assembler.readBody_append rfl, readPayload,
    Message.ofPayload?_other (Nat.lt_of_le_of_lt hm (by decide)) hc]

/-- The payload of a message that has a frame is no message of any other class. When the class in the
frame is altered, a stream of bytes that goes on with it makes no message of it and fails behind it.
However the stream is cut and whatever happens to the simulation and the sink between the calls, a
connection that is between two frames does nothing up to the piece in which the altered frame ends;
this piece is met with an error and without any effect, and the connection goes on as a new one. No
response comes of it at a client's end either. -/
theorem withClass_rejected {m : Message} {bytes : List UInt8} (hframe : m.frame = .ok bytes)
    {c : MessageClass} (hc : c ≠ m.class) :
    Message.ofPayload? c m.payload = none ∧ ∀ rest,
      readAll (withClass c bytes ++ rest) = ([], .failed .malformed rest) ∧
      (∀ (own : Connection) (visits : List Connection.Visit), own.assembler = .fresh →
        (visits.map (·.piece)).flatten = withClass c bytes ++ rest →
        ∃ (before : List Connection.Visit) (v : Connection.Visit)
          (after : List Connection.Visit) (front back : List UInt8),
          visits = before ++ v :: after ∧ v.piece = front ++ back ∧ front ≠ [] ∧
          rest = back ++ (after.map (·.piece)).flatten ∧
          own.receiveAll visits = before.map Connection.Visit.idle ++
            ⟨.error (.wire .malformed), v.simulation, v.sink⟩ ::
              (Connection.new own.channel).receiveAll after) ∧
      ∀ (near : StreamEnd) (pieces : List (List UInt8)), near.assembler = .fresh →
        pieces.flatten = withClass c bytes ++ rest →
        ∃ (before : List (List UInt8)) (front back : List UInt8) (after : List (List UInt8)),
          pieces = before ++ (front ++ back) :: after ∧ front ≠ [] ∧ rest = back ++ after.flatten ∧
          near.receiveAll (before ++ [front ++ back]) =
            ((before.map fun _ => .ok ()) ++ [.error (.wire .malformed)], near) := by
  have hread := readAll_withClass hframe hc
  obtain ⟨hm, -⟩ := withClass_frame c hframe
  refine ⟨Message.ofPayload?_other (Nat.lt_of_le_of_lt hm (by decide)) hc, fun rest =>
    ⟨hread rest, fun own visits hfresh hvisits => ?_, fun near pieces hfresh hpieces => ?_⟩⟩
  · have hfailed := hread rest
    rw [← hvisits] at hfailed
    obtain ⟨_, front, back, _, a, hsplit, hfront, hrest, hfeeds, hfeed⟩ :=
      Assembler.exists_failing_piece hfailed
    obtain ⟨before, others, rfl, rfl, hothers⟩ := List.map_eq_append_iff.mp hsplit
    obtain ⟨v, after, rfl, hv, rfl⟩ := List.map_eq_cons_iff.mp hothers
    refine ⟨before, v, after, front, back, rfl, hv, hfront, hrest, ?_⟩
    rw [← hfresh, List.map_map] at hfeeds
    rw [← hv] at hfeed
    rw [Connection.receiveAll_idle hfeeds]
    exact congrArg (_ ++ ·) (Connection.receiveAll_error (c := { own with assembler := a }) hfeed after)
  · have hfailed := hread rest
    rw [← hpieces] at hfailed
    obtain ⟨before, front, back, after, a, hsplit, hfront, hrest, hfeeds, hfeed⟩ :=
      Assembler.exists_failing_piece hfailed
    refine ⟨before, front, back, after, hsplit, hfront, hrest, ?_⟩
    rw [← hfresh] at hfeeds
    rw [StreamEnd.receiveAll_append, StreamEnd.receiveAll_idle hfeeds, StreamEnd.receiveAll,
      StreamEnd.receive, hfeed, ← hfresh]
    rfl

theorem withClass_rejected_ping :
    let ping := Message.link (.ping 41)
    let altered := withClass .command ping.bytes
    let sim := Simulation.ofWorld (.new 1)
    Message.ofPayload? .command ping.payload = none ∧
      readAll (altered ++ [7]) = ([], .failed .malformed [7]) ∧
      ((Connection.new 7).receiveAll
        [⟨sim, .empty, altered.take 11⟩, ⟨sim, .empty, altered.drop 11 ++ [7]⟩]).map (·.result) =
          [.ok 0, .error (.wire .malformed)] := by
  intro ping altered sim
  obtain ⟨hpayload, hstream⟩ := withClass_rejected (Message.frame_of_le (m := ping) (by decide))
    (c := .command) (by decide)
  exact ⟨hpayload, (hstream [7]).1, by decide +kernel⟩

end Frame

end Terrarium
