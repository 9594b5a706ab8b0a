import Terrarium.Proofs.FrameCuts
import Terrarium.Proofs.QueueDelivery
import Terrarium.Proofs.TokenDispatch

namespace Terrarium

variable {κ σ : Type} {w : World} {channel : Channel}

theorem filterMap_cons_toList {α β : Type} (f : α → Option β) (a : α) (l : List α) :
    (a :: l).filterMap f = (f a).toList ++ l.filterMap f := by
  rw [List.filterMap_cons]
  cases f a <;> rfl

theorem Client.dispatch_oldest {c : Client κ} {others : List (UInt64 × κ)} {oldest : UInt64 × κ}
    (hwaiting : c.waiting = others ++ [oldest]) (hothers : ∀ v ∈ others, v.1 ≠ oldest.1)
    (outcome : Outcome) :
    (c.dispatch ⟨oldest.1, outcome⟩).1 = some (oldest.2, outcome) ∧
      (c.dispatch ⟨oldest.1, outcome⟩).2.waiting = others := by
  rw [dispatch_call, waiting_dispatch, hwaiting]
  have hnone : others.find? (fun v => v.1 = oldest.1) = none := by
    rw [List.find?_eq_none]
    exact fun v hv => by simpa using hothers v hv
  have hkept : others.filter (fun v => v.1 ≠ oldest.1) = others :=
    List.filter_eq_self.mpr fun v hv => by simpa using hothers v hv
  constructor
  · rw [List.find?_append, hnone]
    simp
  · rw [List.filter_append, hkept]
    simp

/-- A command, with the callback that wants its outcome. -/
abbrev Request (κ : Type) := Command × Option κ

namespace Request

/-- How a request waits in the queue. -/
def item (channel : Channel) (r : Request κ) : QueuedOperation := .ofCommand r.1 channel

/-- The token and the callback of a request that wants its outcome. -/
def ticket? (r : Request κ) : Option (UInt64 × κ) := r.2.map (r.1.token, ·)

/-- Whether a request asks for a response exactly if it has a callback. -/
def Proper (r : Request κ) : Prop := r.1.token = noToken ↔ r.2 = none

end Request

/-- The call that a response with a token leads to. -/
abbrev Answer (κ : Type) := UInt64 × Call κ

namespace Answer

/-- The token and the callback that wait for an answer. -/
def ticket (e : Answer κ) : UInt64 × κ := (e.1, e.2.1)

/-- The response that brings an answer. -/
def response (e : Answer κ) : Response := ⟨e.1, e.2.2⟩

/-- The answers to requests that ended with outcomes. -/
def toAll (requests : List (Request κ)) (outcomes : List Outcome) : List (Answer κ) :=
  (requests.zip outcomes).filterMap fun (r, outcome) => r.2.map fun k => (r.1.token, k, outcome)

theorem toAll_append {requests more : List (Request κ)} {outcomes others : List Outcome}
    (h : requests.length = outcomes.length) :
    toAll (requests ++ more) (outcomes ++ others) =
      toAll requests outcomes ++ toAll more others := by
  rw [toAll, List.zip_append h, List.filterMap_append]
  rfl

theorem map_ticket_toAll {requests : List (Request κ)} {outcomes : List Outcome}
    (h : requests.length = outcomes.length) :
    (toAll requests outcomes).map ticket = requests.filterMap Request.ticket? := by
  induction requests generalizing outcomes with
  | nil => rfl
  | cons r requests ih =>
      cases outcomes with
      | nil => contradiction
      | cons outcome outcomes =>
          have hrest := ih (Nat.succ.inj h)
          obtain ⟨c, _ | k⟩ := r
          · exact hrest
          · exact congrArg ((c.token, k) :: ·) hrest

theorem filterMap_response? {channel : Channel} {requests : List (Request κ)}
    (hproper : ∀ r ∈ requests, r.Proper) (outcomes : List Outcome) :
    ((requests.map (Request.item channel)).zip outcomes).filterMap Simulation.response? =
      (toAll requests outcomes).map fun e => (channel, e.response) := by
  induction requests generalizing outcomes with
  | nil => rfl
  | cons r requests ih =>
      cases outcomes with
      | nil => rfl
      | cons outcome outcomes =>
          have hrest := ih (fun r hr => hproper r (List.mem_cons_of_mem _ hr)) outcomes
          have hr := hproper r List.mem_cons_self
          obtain ⟨c, _ | k⟩ := r
          · have htoken : c.token = noToken := hr.mpr rfl
            simpa [toAll, Request.item, QueuedOperation.ofCommand, Command.wantsResponse,
              List.filterMap_cons, Simulation.response?, htoken] using hrest
          · have htoken : c.token ≠ noToken := fun h => by simpa using hr.mp h
            simpa [toAll, Request.item, QueuedOperation.ofCommand, Command.wantsResponse,
              List.filterMap_cons, Simulation.response?, htoken, response] using hrest

end Answer

/-- Where the requests of a client and their answers are. -/
structure Stages (κ : Type) where
  done : List (Request κ)
  queued : List (Request κ)
  out : List (Request κ)
  called : List (Answer κ)
  back : List (Answer κ)
  posted : List (Answer κ)

namespace Stages

def empty : Stages κ := ⟨[], [], [], [], [], []⟩

/-- All requests, the first one first. -/
def sent (g : Stages κ) : List (Request κ) := g.done ++ g.queued ++ g.out

/-- What executing the requests makes of a world. -/
def executed (g : Stages κ) (w : World) : List Outcome × World :=
  w.executeAll (g.done.map (·.1.op))

theorem length_executed (g : Stages κ) (w : World) : g.done.length = (g.executed w).1.length := by
  rw [executed, Simulation.length_executeAll, List.length_map]

theorem length_items (g : Stages κ) (w : World) :
    (g.done.map (Request.item channel)).length = (g.executed w).1.length :=
  (List.length_map _).trans (g.length_executed w)

theorem executed_sent (g : Stages κ) (w : World) :
    w.executeAll (g.sent.map (·.1.op)) =
      ((g.executed w).1 ++ ((g.executed w).2.executeAll ((g.queued ++ g.out).map (·.1.op))).1,
        ((g.executed w).2.executeAll ((g.queued ++ g.out).map (·.1.op))).2) := by
  rw [sent, List.append_assoc, List.map_append, World.executeAll_append]
  rfl

/-- A frame executes what waits, and posts the answers. -/
def frame (g : Stages κ) (w : World) : Stages κ :=
  { g with
    done := g.done ++ g.queued
    queued := []
    posted := g.posted ++
      Answer.toAll g.queued ((g.executed w).2.executeAll (g.queued.map (·.1.op))).1 }

theorem executed_frame (g : Stages κ) (w : World) :
    (g.frame w).executed w =
      ((g.executed w).1 ++ ((g.executed w).2.executeAll (g.queued.map (·.1.op))).1,
        ((g.executed w).2.executeAll (g.queued.map (·.1.op))).2) := by
  rw [executed, frame, List.map_append, World.executeAll_append]
  rfl

end Stages

/-- A simulation is where the stages say, when `w` was there at first and `log` was executed. -/
structure Executes (w : World) (channel : Channel) (g : Stages κ) (sim : Simulation)
    (log : List Executed) : Prop where
  log : log = (g.done.map (Request.item channel)).zip (g.executed w).1
  queue : sim.queue.waiting.toList = g.queued.map (Request.item channel)
  registered : sim.world.Registered
  agree : World.Agree sim.world (g.executed w).2

namespace Executes

variable {g : Stages κ} {sim : Simulation} {log : List Executed}

theorem start (hw : w.Registered) :
    Executes w channel (Stages.empty : Stages κ) (.ofWorld w) [] where
  log := rfl
  queue := rfl
  registered := hw
  agree := World.Agree.refl w

theorem submitAll (h : Executes w channel g sim log) (requests rest : List (Request κ)) :
    Executes w channel { g with queued := g.queued ++ requests, out := rest }
      (requests.foldl (fun sim r => sim.submit r.1 channel) sim) log := by
  induction requests generalizing g sim with
  | nil =>
      rw [List.append_nil]
      exact ⟨h.log, h.queue, h.registered, h.agree⟩
  | cons r requests ih =>
      have hqueue : (sim.submit r.1 channel).queue.waiting.toList =
          (g.queued ++ [r]).map (Request.item channel) := by
        change (sim.queue.waiting.push (r.item channel)).toList = _
        rw [Array.toList_push, h.queue, List.map_append]
        rfl
      have hnext := @ih { g with queued := g.queued ++ [r] } _
        ⟨h.log, hqueue, h.registered, h.agree⟩
      rwa [List.append_assoc] at hnext

/-- The world of a simulation executes the next operations as if it had come without frames. -/
theorem outcomes (h : Executes w channel g sim log) (ops : List Operation) :
    (sim.world.wait.executeAll ops).1 = ((g.executed w).2.executeAll ops).1 ∧
      World.Agree (sim.world.wait.executeAll ops).2 ((g.executed w).2.executeAll ops).2 :=
  World.executeAll_agree ((World.wait_agree sim.world).trans h.agree) ops

theorem note_eq (h : Executes w channel g sim log) :
    (sim.world.note sim.queue.waiting.toList).1 =
      (g.queued.map (Request.item channel)).zip
        ((g.executed w).2.executeAll (g.queued.map (·.1.op))).1 := by
  have hops : (g.queued.map (Request.item channel)).map (·.op) = g.queued.map (·.1.op) :=
    List.map_map
  rw [World.note, h.queue, hops]
  exact congrArg _ (h.outcomes _).1

theorem frame (h : Executes w channel g sim log) :
    Executes w channel (g.frame w) sim.frame
      (log ++ (sim.world.note sim.queue.waiting.toList).1) where
  log := by
    rw [h.note_eq, h.log, ← List.zip_append (g.length_items w), ← List.map_append, g.executed_frame]
    rfl
  queue := rfl
  registered := (h.registered.wait.executeAll _).upkeep.start
  agree := by
    -- Waiting, upkeep and starting a step change nothing that operations decide by.
    have hops : sim.queue.waiting.toList.map (·.op) = g.queued.map (·.1.op) := by
      rw [h.queue]
      exact List.map_map
    rw [g.executed_frame, ← hops]
    have hupkeep := World.upkeep_agree
      (h.registered.wait.executeAll (sim.queue.waiting.toList.map (·.op)))
    exact (World.start_agree _).trans (hupkeep.trans (h.outcomes _).2)

end Executes

/-- Client and posted responses are where the stages say, when `calls` were made. -/
structure Flow (w : World) (channel : Channel) (g : Stages κ) (c : Client κ) (sim : Simulation)
    (calls : List (Call κ)) : Prop where
  answers : Answer.toAll g.done (g.executed w).1 = g.called ++ g.back ++ g.posted
  posted : sim.posted = g.posted.map fun e => (channel, e.response)
  calls : calls = g.called.map Prod.snd
  waiting : c.waiting =
    ((g.back ++ g.posted).map Answer.ticket ++
      (g.queued ++ g.out).filterMap Request.ticket?).reverse

namespace Flow

variable {g : Stages κ} {c c' : Client κ} {sim sim' : Simulation} {log : List Executed}
  {calls : List (Call κ)}

theorem start (sim : Simulation) (hposted : sim.posted = []) :
    Flow w channel (Stages.empty : Stages κ) .new sim [] where
  answers := rfl
  posted := hposted
  calls := rfl
  waiting := rfl

theorem send (h : Flow w channel g c sim calls) {r : Request κ}
    (hwaiting : c'.waiting = r.ticket?.toList ++ c.waiting) :
    Flow w channel { g with out := g.out ++ [r] } c' sim calls where
  answers := h.answers
  posted := h.posted
  calls := h.calls
  waiting := by
    rw [hwaiting, h.waiting]
    cases hr : r.ticket? <;> simp [hr]

theorem submitAll (h : Flow w channel g c sim calls) {requests rest : List (Request κ)}
    (hout : g.out = requests ++ rest) (hposted : sim'.posted = sim.posted) :
    Flow w channel { g with queued := g.queued ++ requests, out := rest } c sim' calls where
  answers := h.answers
  posted := hposted.trans h.posted
  calls := h.calls
  waiting := by
    rw [h.waiting, hout, ← List.append_assoc g.queued]

theorem frame (h : Flow w channel g c sim calls) (he : Executes w channel g sim log)
    (hproper : ∀ r ∈ g.queued, r.Proper) : Flow w channel (g.frame w) c sim.frame calls where
  answers := by
    rw [g.executed_frame]
    change Answer.toAll (g.done ++ g.queued) _ = _
    rw [Answer.toAll_append (g.length_executed w), h.answers, List.append_assoc]
    rfl
  posted := by
    rw [← Simulation.frameDuring_nil, Simulation.frameDuring_eq_note, he.note_eq,
      Answer.filterMap_response? hproper, h.posted, Stages.frame, List.map_append]
  calls := h.calls
  waiting := by
    have htickets : (g.frame w).posted.map Answer.ticket =
        g.posted.map Answer.ticket ++ g.queued.filterMap Request.ticket? := by
      rw [Stages.frame, List.map_append, Answer.map_ticket_toAll]
      rw [Simulation.length_executeAll, List.length_map]
    rw [h.waiting, List.map_append, List.map_append, htickets, List.filterMap_append]
    simp [Stages.frame]

theorem collect (h : Flow w channel g c sim calls) (hposted : sim'.posted = []) :
    Flow w channel { g with back := g.back ++ g.posted, posted := [] } c sim' calls where
  answers := h.answers.trans (by simp)
  posted := hposted
  calls := h.calls
  waiting := h.waiting.trans (by simp)

theorem tickets_sent (h : Flow w channel g c sim calls) :
    g.sent.filterMap Request.ticket? = g.called.map Answer.ticket ++ c.waiting.reverse := by
  have hdone : g.done.filterMap Request.ticket? =
      (g.called ++ g.back ++ g.posted).map Answer.ticket := by
    rw [← h.answers, Answer.map_ticket_toAll (g.length_executed w)]
  rw [h.waiting, List.reverse_reverse, Stages.sent, List.append_assoc, List.filterMap_append, hdone]
  simp only [List.map_append, List.append_assoc]

theorem dispatch (h : Flow w channel g c sim calls)
    (htokens : ((g.sent.filterMap Request.ticket?).map Prod.fst).Nodup) {e : Answer κ}
    {rest : List (Answer κ)} (hback : g.back = e :: rest) :
    (c.dispatch e.response).1 = some e.2 ∧
      Flow w channel { g with called := g.called ++ [e], back := rest }
        (c.dispatch e.response).2 sim (calls ++ [e.2]) := by
  let others := (rest ++ g.posted).map Answer.ticket ++
    (g.queued ++ g.out).filterMap Request.ticket?
  have hwaiting : c.waiting = others.reverse ++ [e.ticket] := by
    rw [h.waiting, hback]
    exact List.reverse_cons
  -- Answers come back in the order of the requests, so that this callback has waited longest.
  have holdest : ∀ v ∈ others.reverse, v.1 ≠ e.1 := by
    rw [h.tickets_sent, hwaiting, List.reverse_append, List.map_append] at htokens
    have hfresh := (List.nodup_cons.mp htokens.of_append_right).1
    rw [List.reverse_reverse] at hfresh
    intro v hv hve
    exact hfresh (List.mem_map.mpr ⟨v, List.mem_reverse.mp hv, hve⟩)
  obtain ⟨hcall, hothers⟩ := Client.dispatch_oldest hwaiting holdest e.2.2
  refine ⟨hcall, h.answers.trans ?_, h.posted, ?_, hothers⟩
  · rw [hback]
    simp
  · rw [h.calls, List.map_append]
    rfl

theorem dispatchAll (h : Flow w channel g c sim calls)
    (htokens : ((g.sent.filterMap Request.ticket?).map Prod.fst).Nodup)
    {answers rest : List (Answer κ)} (hback : g.back = answers ++ rest) :
    Flow w channel { g with called := g.called ++ answers, back := rest }
      (c.dispatchAll (answers.map Answer.response)).2 sim
      (calls ++ (c.dispatchAll (answers.map Answer.response)).1) := by
  induction answers generalizing g c calls with
  | nil =>
      change Flow w channel _ c sim (calls ++ [])
      rw [List.append_nil, List.append_nil]
      rw [List.nil_append] at hback
      rw [← hback]
      exact h
  | cons e answers ih =>
      obtain ⟨hcall, hnext⟩ := h.dispatch htokens hback
      have hlast := ih hnext htokens rfl
      rw [List.append_assoc, List.append_assoc] at hlast
      simp only [List.map_cons, Client.dispatchAll, hcall]
      exact hlast

theorem answers_sent (h : Flow w channel g c sim calls) :
    Answer.toAll g.sent (w.executeAll (g.sent.map (·.1.op))).1 =
      g.called ++ g.back ++ g.posted ++
        Answer.toAll (g.queued ++ g.out)
          ((g.executed w).2.executeAll ((g.queued ++ g.out).map (·.1.op))).1 := by
  rw [g.executed_sent, Stages.sent, List.append_assoc, Answer.toAll_append (g.length_executed w),
    h.answers]

theorem calls_prefix (h : Flow w channel g c sim calls) :
    calls <+: (Answer.toAll g.sent (w.executeAll (g.sent.map (·.1.op))).1).map Prod.snd := by
  rw [h.answers_sent, h.calls, List.append_assoc, List.append_assoc, List.map_append]
  exact List.prefix_append _ _

theorem posted_eq_nil (h : Flow w channel g c sim calls) (hposted : sim.posted = []) :
    g.posted = [] := by
  rw [h.posted] at hposted
  exact List.map_eq_nil_iff.mp hposted

theorem calls_eq (h : Flow w channel g c sim calls) (hqueued : g.queued = []) (hout : g.out = [])
    (hback : g.back = []) (hposted : g.posted = []) :
    calls = (Answer.toAll g.sent (w.executeAll (g.sent.map (·.1.op))).1).map Prod.snd ∧
      c.pending = 0 := by
  constructor
  · rw [h.answers_sent, h.calls, hqueued, hout, hback, hposted]
    simp [Answer.toAll]
  · rw [Client.pending, h.waiting, hqueued, hout, hback, hposted]
    rfl

end Flow

namespace Executes

variable {g : Stages κ} {sim : Simulation} {log : List Executed}

theorem reached (h : Executes w channel g sim log) :
    log.map Prod.fst ++ sim.queue.waiting.toList =
      (g.done ++ g.queued).map (Request.item channel) := by
  rw [h.log, List.map_fst_zip (Nat.le_of_eq (g.length_items w)), h.queue, List.map_append]

theorem log_prefix (h : Executes w channel g sim log) :
    log <+: (g.sent.map (Request.item channel)).zip (w.executeAll (g.sent.map (·.1.op))).1 := by
  rw [h.log, g.executed_sent, Stages.sent, List.append_assoc, List.map_append,
    List.zip_append (g.length_items w)]
  exact List.prefix_append _ _

theorem queued_eq_nil (h : Executes w channel g sim log) (hempty : sim.queue.isEmpty) :
    g.queued = [] := by
  have hsize : sim.queue.waiting.size = 0 := of_decide_eq_true hempty
  rw [← Array.length_toList, h.queue, List.length_map] at hsize
  exact List.eq_nil_of_length_eq_zero hsize

end Executes

namespace Client

/-- The requests that a client makes of what it sends, when its next token is `n`. -/
def requests (n : UInt64) : List (Operation × Option κ) → List (Request κ)
  | [] => []
  | (op, none) :: rest => (.tokenless op, none) :: requests n rest
  | (op, some callback) :: rest => (⟨n, op⟩, some callback) :: requests (n + 1) rest

/-- How many of what is sent wants an outcome. -/
def asked (sends : List (Operation × Option κ)) : Nat := sends.countP fun s => s.2.isSome

/-- The request that a client makes of an operation. -/
def request (c : Client κ) (op : Operation) (callback : Option κ) : Request κ :=
  (⟨callback.elim noToken fun _ => c.nextToken, op⟩, callback)

variable {sends more : List (Operation × Option κ)} {op : Operation} {callback : Option κ}

theorem asked_append (sends more : List (Operation × Option κ)) :
    asked (sends ++ more) = asked sends + asked more :=
  List.countP_append

theorem asked_le_append (sends more : List (Operation × Option κ)) :
    asked sends ≤ asked (sends ++ more) := by
  rw [asked_append]
  exact Nat.le_add_right _ _

theorem asked_cons_none (op : Operation) (sends : List (Operation × Option κ)) :
    asked ((op, none) :: sends) = asked sends :=
  List.countP_cons_of_neg Bool.false_ne_true

theorem asked_cons_some (op : Operation) (callback : κ) (sends : List (Operation × Option κ)) :
    asked ((op, some callback) :: sends) = asked sends + 1 :=
  List.countP_cons_of_pos rfl

theorem requests_append (n : UInt64) (sends more : List (Operation × Option κ)) :
    requests n (sends ++ more) =
      requests n sends ++ requests (n + UInt64.ofNat (asked sends)) more := by
  induction sends generalizing n with
  | nil => simp [requests, asked]
  | cons s sends ih =>
      obtain ⟨op, _ | callback⟩ := s
      · rw [List.cons_append, requests, requests, ih, asked_cons_none, List.cons_append]
      · rw [List.cons_append, requests, requests, ih, asked_cons_some, Nat.add_comm,
          UInt64.ofNat_add, ← UInt64.add_assoc]
        rfl

theorem map_op_requests (n : UInt64) (sends : List (Operation × Option κ)) :
    (requests n sends).map (·.1.op) = sends.map Prod.fst := by
  induction sends generalizing n with
  | nil => rfl
  | cons s sends ih =>
      obtain ⟨op, _ | callback⟩ := s
      · exact congrArg (op :: ·) (ih n)
      · exact congrArg (op :: ·) (ih (n + 1))

theorem tokens_requests (n : Nat) (sends : List (Operation × Option κ)) :
    ((requests (UInt64.ofNat n) sends).filterMap Request.ticket?).map Prod.fst =
      (List.range' n (asked sends)).map UInt64.ofNat := by
  induction sends generalizing n with
  | nil => rfl
  | cons s sends ih =>
      obtain ⟨op, _ | callback⟩ := s
      · exact ih n
      · rw [requests, ofNat_add_one, asked_cons_some, List.range'_succ, List.map_cons, ← ih (n + 1)]
        rfl

theorem proper_requests {n : Nat} (hn : 0 < n) (hbound : n + asked sends ≤ UInt64.size) :
    ∀ r ∈ requests (UInt64.ofNat n) sends, r.Proper := by
  induction sends generalizing n with
  | nil => exact fun r hr => absurd hr List.not_mem_nil
  | cons s sends ih =>
      obtain ⟨op, _ | callback⟩ := s
      · rw [asked_cons_none] at hbound
        exact List.forall_mem_cons.mpr ⟨iff_of_true rfl rfl, ih hn hbound⟩
      · rw [asked_cons_some] at hbound
        rw [requests, ofNat_add_one]
        have hsmall : n < UInt64.size := by omega
        have htoken : UInt64.ofNat n ≠ noToken := by
          intro hzero
          have hnat := congrArg UInt64.toNat hzero
          rw [UInt64.toNat_ofNat_of_lt' hsmall] at hnat
          exact Nat.ne_of_gt hn hnat
        exact List.forall_mem_cons.mpr ⟨iff_of_false htoken (Option.some_ne_none callback),
          ih (Nat.succ_pos n) (by omega)⟩

theorem send_accepted {t : Transport σ} {c : Client κ} {s : σ} {v : Unit}
    (hsent : (t.send s (c.request op callback).1).1 = .ok v) :
    (c.send t s op callback).2.1.waiting = (c.request op callback).ticket?.toList ++ c.waiting ∧
      (c.send t s op callback).2.1.nextToken = c.nextToken + UInt64.ofNat (asked [(op, callback)]) ∧
      (c.send t s op callback).2.2 = (t.send s (c.request op callback).1).2 := by
  cases callback with
  | none => exact ⟨rfl, (UInt64.add_zero _).symm, rfl⟩
  | some callback =>
      rw [send_of_ok hsent]
      exact ⟨rfl, rfl, rfl⟩

/-- A client that has sent so much has the next token to give. -/
def Numbered (c : Client κ) (sends : List (Operation × Option κ)) : Prop :=
  c.nextToken = 1 + UInt64.ofNat (asked sends)

theorem Numbered.requests_concat {c : Client κ} (h : c.Numbered sends) (op : Operation)
    (callback : Option κ) :
    requests 1 (sends ++ [(op, callback)]) = requests 1 sends ++ [c.request op callback] := by
  rw [requests_append, ← h]
  cases callback <;> rfl

theorem Numbered.request_mem {c : Client κ} (h : c.Numbered sends) (op : Operation)
    (callback : Option κ) : c.request op callback ∈ requests 1 (sends ++ [(op, callback)]) := by
  rw [h.requests_concat]
  exact List.mem_concat_self

theorem Numbered.concat {c c' : Client κ} (h : c.Numbered sends)
    (hnext : c'.nextToken = c.nextToken + UInt64.ofNat (asked [(op, callback)])) :
    c'.Numbered (sends ++ [(op, callback)]) := by
  rw [Numbered, hnext, h, asked_append, UInt64.ofNat_add, UInt64.add_assoc]

theorem nextToken_dispatchAll (c : Client κ) (responses : List Response) :
    (c.dispatchAll responses).2.nextToken = c.nextToken := by
  induction responses generalizing c with
  | nil => rfl
  | cons r rest ih => exact (ih (c.dispatch r).2).trans (c.nextToken_dispatch r)

end Client

/-- The calls due for what is sent to a world: of each callback, with the outcome of its own
operation when all are executed in this order. -/
def World.callsDue (w : World) (sends : List (Operation × Option κ)) : List (Call κ) :=
  (sends.zip (w.executeAll (sends.map Prod.fst)).1).filterMap fun (s, outcome) =>
    s.2.map (·, outcome)

theorem Answer.map_snd_toAll (n : UInt64) (sends : List (Operation × Option κ))
    (outcomes : List Outcome) :
    (toAll (Client.requests n sends) outcomes).map Prod.snd =
      (sends.zip outcomes).filterMap fun (s, outcome) => s.2.map (·, outcome) := by
  induction sends generalizing n outcomes with
  | nil => rfl
  | cons s sends ih =>
      cases outcomes with
      | nil =>
          obtain ⟨op, _ | callback⟩ := s <;> rfl
      | cons outcome outcomes =>
          obtain ⟨op, _ | callback⟩ := s
          · exact ih n outcomes
          · exact congrArg ((callback, outcome) :: ·) (ih (n + 1) outcomes)

theorem World.callsDue_eq (w : World) (n : UInt64) (sends : List (Operation × Option κ)) :
    w.callsDue sends =
      (Answer.toAll (Client.requests n sends)
        (w.executeAll ((Client.requests n sends).map (·.1.op))).1).map Prod.snd := by
  rw [Client.map_op_requests, Answer.map_snd_toAll]
  rfl

/-- What a client has sent is executed in this order, or waits, or is on its way. -/
structure Underway (w : World) (channel : Channel) (sends : List (Operation × Option κ))
    (g : Stages κ) (log : List Executed) (c : Client κ) (sim : Simulation) : Prop where
  executes : Executes w channel g sim log
  sent : g.sent = Client.requests 1 sends
  numbered : c.Numbered sends

namespace Underway

variable {sends : List (Operation × Option κ)} {g : Stages κ} {log : List Executed}
  {c c' : Client κ} {sim sim' : Simulation} {op : Operation} {callback : Option κ}

theorem start (hw : w.Registered) :
    Underway w channel [] (Stages.empty : Stages κ) [] .new (.ofWorld w) :=
  ⟨.start hw, rfl, rfl⟩

theorem send (h : Underway w channel sends g log c sim)
    (hnext : c'.nextToken = c.nextToken + UInt64.ofNat (Client.asked [(op, callback)])) :
    Underway w channel (sends ++ [(op, callback)])
      { g with out := g.out ++ [c.request op callback] } log c' sim where
  executes := ⟨h.executes.log, h.executes.queue, h.executes.registered, h.executes.agree⟩
  sent := by
    rw [h.numbered.requests_concat, ← h.sent]
    exact (List.append_assoc _ _ _).symm
  numbered := h.numbered.concat hnext

theorem submitAll (h : Underway w channel sends g log c sim) {requests rest : List (Request κ)}
    (hout : g.out = requests ++ rest) :
    Underway w channel sends { g with queued := g.queued ++ requests, out := rest } log c
      (requests.foldl (fun sim r => sim.submit r.1 channel) sim) where
  executes := h.executes.submitAll requests rest
  sent := by
    rw [← h.sent, Stages.sent, Stages.sent, hout]
    simp only [List.append_assoc]
  numbered := h.numbered

theorem frame (h : Underway w channel sends g log c sim) :
    Underway w channel sends (g.frame w) (log ++ (sim.world.note sim.queue.waiting.toList).1) c
      sim.frame where
  executes := h.executes.frame
  sent := by
    rw [← h.sent, Stages.sent, Stages.sent, Stages.frame, List.append_nil]
  numbered := h.numbered

theorem answered (h : Underway w channel sends g log c sim) {called back posted : List (Answer κ)}
    (hnext : c'.nextToken = c.nextToken) (hworld : sim'.world = sim.world)
    (hqueue : sim'.queue = sim.queue) :
    Underway w channel sends { g with called, back, posted } log c' sim' where
  executes :=
    { log := h.executes.log
      queue := hqueue ▸ h.executes.queue
      registered := hworld ▸ h.executes.registered
      agree := hworld ▸ h.executes.agree }
  sent := h.sent
  numbered := hnext.trans h.numbered

theorem proper_queued (h : Underway w channel sends g log c sim)
    (hbound : Client.asked sends < UInt64.size) : ∀ r ∈ g.queued, r.Proper := by
  have hcount : 1 + Client.asked sends ≤ UInt64.size := by omega
  have hproper := Client.proper_requests Nat.one_pos hcount
  intro r hr
  apply hproper
  change r ∈ Client.requests 1 sends
  rw [← h.sent]
  exact List.mem_append_left _ (List.mem_append_right _ hr)

theorem nodup_tokens (h : Underway w channel sends g log c sim)
    (hbound : Client.asked sends < UInt64.size) :
    ((g.sent.filterMap Request.ticket?).map Prod.fst).Nodup := by
  have hcount : 1 + Client.asked sends ≤ UInt64.size := by omega
  have htokens : ((g.sent.filterMap Request.ticket?).map Prod.fst).Pairwise (· < ·) := by
    rw [h.sent]
    exact Client.tokens_requests 1 sends ▸ Client.pairwise_lt_ofNat hcount
  exact htokens.imp UInt64.ne_of_lt

theorem callsDue (h : Underway w channel sends g log c sim) :
    (Answer.toAll g.sent (w.executeAll (g.sent.map (·.1.op))).1).map Prod.snd =
      w.callsDue sends := by
  rw [h.sent, ← World.callsDue_eq]

end Underway

end Terrarium
