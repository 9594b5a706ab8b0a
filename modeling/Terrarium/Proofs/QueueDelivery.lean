import Terrarium.Proofs.FrameInterruption

/-!
Delivery through the queue. Whatever the order of submissions and frames, every operation that is appended
is executed once and in its turn, the operations of one submission stay together, and exactly those that
ask for a response get one, on their channel and with the outcome of their own execution.
-/
namespace Terrarium

/-- What happens to a running simulation: a submission between frames, or a frame during which submissions come
in. -/
inductive Event where
  | submission (c : Submission)
  | frame (during : List (List Submission))

/-- Whether an event is a frame. -/
def Event.isFrame : Event → Bool
  | .submission _ => false
  | .frame _ => true

/-- The submissions of an event in their order. -/
def Event.submissions : Event → List Submission
  | .submission c => [c]
  | .frame during => during.flatten

/-- The tokens that submissions ask responses with on a channel, in their order. -/
def Submission.asked (channel : Channel) : Submission → Option UInt64
  | .submit c own => if own = channel ∧ c.token ≠ noToken then some c.token else none
  | _ => none

namespace QueuedOperation

/-- The token that an operation's response goes to a channel with. -/
def tokenOn (channel : Channel) (item : QueuedOperation) : Option UInt64 :=
  item.reply.bind fun r => if r.channel = channel then some r.token else none

theorem tokenOn_items (channel : Channel) (c : Submission) :
    c.items.filterMap (tokenOn channel) = (c.asked channel).toList := by
  cases c with
  | enqueue op => rfl
  | enqueueAll ops => simp [Submission.items, Submission.asked, tokenOn, List.filterMap_map, Function.comp_def]
  | submit c own =>
      by_cases htoken : c.token = noToken <;> by_cases hown : own = channel <;>
        simp [Submission.items, Submission.asked, tokenOn, htoken, hown]

end QueuedOperation

/-- An operation that was executed, and its outcome. -/
abbrev Executed := QueuedOperation × Outcome

namespace World

/-- Executes a batch in one frame, and notes what was executed and how it ended. -/
def note (w : World) (batch : List QueuedOperation) : List Executed × World :=
  let (outcomes, w) := w.wait.frame (batch.map (·.op))
  (batch.zip outcomes, w)

/-- Executes batches in frames, and notes each frame. -/
def serve (w : World) : List (List QueuedOperation) → List (List Executed) × World
  | [] => ([], w)
  | batch :: rest =>
      let (notes, w) := w.note batch
      let (more, w) := w.serve rest
      (notes :: more, w)

theorem map_fst_note (w : World) (batch : List QueuedOperation) :
    (w.note batch).1.map Prod.fst = batch := by
  have hlength := Simulation.length_executeAll w.wait (batch.map (·.op))
  rw [List.length_map] at hlength
  exact List.map_fst_zip (Nat.le_of_eq hlength.symm)

theorem map_fst_serve (w : World) (batches : List (List QueuedOperation)) :
    (w.serve batches).1.map (·.map Prod.fst) = batches := by
  induction batches generalizing w with
  | nil => rfl
  | cons batch rest ih => simp only [serve, List.map_cons, map_fst_note, ih]

end World

namespace Simulation

def meet (s : Simulation) : Event → Simulation
  | .submission c => s.accept c
  | .frame during => s.frameDuring during

def run (s : Simulation) (events : List Event) : Simulation := events.foldl meet s

/-- The submissions whose operations each frame takes, and those left at the end, when `held` waits at
first. -/
def intakes (held : List Submission) : List Event → List (List Submission) × List Submission
  | [] => ([], held)
  | .submission c :: rest => intakes (held ++ [c]) rest
  | .frame during :: rest =>
      let (taken, left) := intakes during.flatten rest
      (held :: taken, left)

theorem flatten_intakes (held : List Submission) (events : List Event) :
    (intakes held events).1.flatten ++ (intakes held events).2 =
      held ++ events.flatMap Event.submissions := by
  induction events generalizing held with
  | nil => simp [intakes]
  | cons event rest ih =>
      cases event with
      | submission c => simp [intakes, ih, Event.submissions]
      | frame during => simp [intakes, ih, Event.submissions]

theorem length_intakes (held : List Submission) (events : List Event) :
    (intakes held events).1.length = events.countP Event.isFrame := by
  induction events generalizing held with
  | nil => rfl
  | cons event rest ih =>
      cases event with
      | submission c => exact (ih (held ++ [c])).trans (List.countP_cons_of_neg Bool.false_ne_true).symm
      | frame during =>
          exact (congrArg (· + 1) (ih during.flatten)).trans (List.countP_cons_of_pos rfl).symm

theorem intakes_append_frame (held : List Submission) (before : List Event)
    (during : List (List Submission)) (after : List Event) :
    intakes held (before ++ .frame during :: after) =
      ((intakes held before).1 ++ (intakes held before).2 :: (intakes during.flatten after).1,
        (intakes during.flatten after).2) := by
  induction before generalizing held with
  | nil => rfl
  | cons event before ih =>
      cases event with
      | submission c => exact ih (held ++ [c])
      | frame during' => simp only [List.cons_append, intakes, ih]

/-- The frames up to one take what was submitted before it; from then on only what is submitted during
it or later can be left. -/
theorem intakes_of_frame {events before after : List Event} {during : List (List Submission)}
    (h : events = before ++ .frame during :: after) :
    ((intakes [] events).1.take (before.countP Event.isFrame + 1)).flatten =
        before.flatMap Event.submissions ∧
      (after.countP Event.isFrame = 0 →
        (intakes [] events).2 = during.flatten ++ after.flatMap Event.submissions) := by
  have hbefore := flatten_intakes [] before
  have hafter := flatten_intakes during.flatten after
  rw [List.nil_append] at hbefore
  rw [h, intakes_append_frame]
  constructor
  · rw [← length_intakes [] before, List.take_length_add_append, List.take_one, List.head?_cons,
      List.flatten_append, Option.toList_some, List.flatten_singleton, hbefore]
  · intro hlast
    rw [← length_intakes during.flatten after, List.length_eq_zero_iff] at hlast
    rwa [hlast, List.flatten_nil, List.nil_append] at hafter

/-- The response to an operation, with the channel it goes to. -/
def response? (e : Executed) : Option (Channel × Response) :=
  e.1.reply.map fun r => (r.channel, ⟨r.token, e.2⟩)

/-- Whether an operation that was executed failed. -/
def hasFailed (e : Executed) : Bool := !e.2.isSuccess

theorem frameDuring_eq_note (s : Simulation) (during : List (List Submission)) :
    s.frameDuring during =
      { world := (s.world.note s.queue.waiting.toList).2
        queue := OperationQueue.empty.pushAll (during.flatten.flatMap Submission.items)
        posted := s.posted ++ (s.world.note s.queue.waiting.toList).1.filterMap response?
        executed := s.executed + (s.world.note s.queue.waiting.toList).1.length
        failed := s.failed + (s.world.note s.queue.waiting.toList).1.countP hasFailed } := by
  have hlength := length_executeAll s.world.wait (s.queue.waiting.toList.map (·.op))
  rw [List.length_map] at hlength
  have hzip : (s.world.note s.queue.waiting.toList).1.length =
      (s.world.wait.executeAll (s.queue.waiting.toList.map (·.op))).1.length := by
    rw [World.note, World.frame, List.length_zip, hlength, Nat.min_self]
  have hfailed : (s.world.note s.queue.waiting.toList).1.countP hasFailed =
      (s.world.wait.executeAll (s.queue.waiting.toList.map (·.op))).1.countP
        fun o => !o.isSuccess := by
    have hsnd : (s.world.note s.queue.waiting.toList).1.map Prod.snd =
        (s.world.wait.executeAll (s.queue.waiting.toList.map (·.op))).1 :=
      List.map_snd_zip (Nat.le_of_eq hlength)
    rw [← hsnd, List.countP_map]
    rfl
  rw [frameDuring_eq, acceptAll_eq, hzip, hfailed]
  rfl

/-- A simulation with submissions in its queue runs as its world serves what each frame takes. -/
theorem run_eq (s : Simulation) (held : List Submission)
    (hheld : s.queue.waiting.toList = held.flatMap Submission.items) (events : List Event) :
    let notes := s.world.serve ((intakes held events).1.map (·.flatMap Submission.items))
    (s.run events).world = notes.2 ∧
      (s.run events).queue.waiting.toList = (intakes held events).2.flatMap Submission.items ∧
      (s.run events).posted = s.posted ++ notes.1.flatten.filterMap response? ∧
      (s.run events).executed = s.executed + notes.1.flatten.length ∧
      (s.run events).failed = s.failed + notes.1.flatten.countP hasFailed := by
  induction events generalizing s held with
  | nil => simpa [run, intakes, World.serve] using hheld
  | cons event rest ih =>
      cases event with
      | submission c =>
          have hnext : (s.accept c).queue.waiting.toList = (held ++ [c]).flatMap Submission.items := by
            rw [accept_eq, OperationQueue.waiting_pushAll, hheld]
            simp
          have h := ih (s.accept c) (held ++ [c]) hnext
          rw [accept_eq] at h
          change _ ∧ _ ∧ _ ∧ _ ∧ _ at h
          have hrun : s.run (.submission c :: rest) = (s.accept c).run rest := rfl
          rw [hrun, accept_eq]
          exact h
      | frame during =>
          have hnext : (s.frameDuring during).queue.waiting.toList =
              during.flatten.flatMap Submission.items := by
            rw [frameDuring_eq_note, OperationQueue.waiting_pushAll]
            rfl
          obtain ⟨hworld, hleft, hposted, hexecuted, hfailed⟩ :=
            ih (s.frameDuring during) during.flatten hnext
          have hrun : s.run (.frame during :: rest) = (s.frameDuring during).run rest := rfl
          rw [frameDuring_eq_note, hheld] at hworld hposted hexecuted hfailed
          rw [hrun]
          simp only [intakes, List.map_cons, World.serve, List.flatten_cons, List.filterMap_append,
            List.length_append, List.countP_append]
          refine ⟨?_, hleft, ?_, ?_, ?_⟩
          · rw [frameDuring_eq_note, hheld, hworld]
          · rw [frameDuring_eq_note, hheld, hposted, List.append_assoc]
          · rw [frameDuring_eq_note, hheld, hexecuted, Nat.add_assoc]
          · rw [frameDuring_eq_note, hheld, hfailed, Nat.add_assoc]

theorem exists_group {α : Type} {groups : List (List α)} {left before after : List α} {a : α}
    (h : groups.flatten ++ left = before ++ a :: after) :
    (∃ earlier group later front back, groups = earlier ++ group :: later ∧
        group = front ++ a :: back ∧ before = earlier.flatten ++ front) ∨
      ∃ front, left = front ++ a :: after ∧ before = groups.flatten ++ front := by
  induction groups generalizing before with
  | nil => exact .inr ⟨before, h, rfl⟩
  | cons group rest ih =>
      rw [List.flatten_cons, List.append_assoc] at h
      -- Either the first group ends before the element, or the element stands in it.
      rcases List.append_eq_append_iff.mp h with ⟨front, hbefore, hrest⟩ | ⟨back, hgroup, hback⟩
      · rcases ih hrest with ⟨earlier, g, later, f, b, hgroups, hg, hf⟩ | ⟨f, hleft, hf⟩
        · refine .inl ⟨group :: earlier, g, later, f, b, by rw [hgroups]; rfl, hg, ?_⟩
          rw [hbefore, hf, List.flatten_cons, List.append_assoc]
        · refine .inr ⟨f, hleft, ?_⟩
          rw [hbefore, hf, List.flatten_cons, List.append_assoc]
      · cases back with
        | nil =>
            rw [List.append_nil] at hgroup
            have hnone : rest.flatten ++ left = [] ++ a :: after := hback.symm
            rcases ih hnone with ⟨earlier, g, later, f, b, hgroups, hg, hf⟩ | ⟨f, hleft, hf⟩
            · refine .inl ⟨group :: earlier, g, later, f, b, by rw [hgroups]; rfl, hg, ?_⟩
              rw [List.flatten_cons, List.append_assoc, ← hf, List.append_nil, hgroup]
            · refine .inr ⟨f, hleft, ?_⟩
              rw [List.flatten_cons, List.append_assoc, ← hf, List.append_nil, hgroup]
        | cons b back =>
            rw [List.cons_append, List.cons.injEq] at hback
            rw [← hback.1] at hgroup
            exact .inl ⟨[], group, rest, before, back, rfl, hgroup, rfl⟩

end Simulation

/-- What holds of a simulation of a world after events, where `frames` lists for each frame what it
executed. -/
structure Delivers (w : World) (events : List Event) (s : Simulation)
    (frames : List (List Executed)) : Prop where
  /-- There is one list for each frame. -/
  perFrame : frames.length = events.countP Event.isFrame
  /-- Everything appended was executed once, in the order of appending, or waits. -/
  inOrder : frames.flatten.map Prod.fst ++ s.queue.waiting.toList =
    (events.flatMap Event.submissions).flatMap Submission.items
  /-- The frames up to one execute all that was appended before it. -/
  taken : ∀ before during after, events = before ++ .frame during :: after →
    (frames.take (before.countP Event.isFrame + 1)).flatten.map Prod.fst =
      (before.flatMap Event.submissions).flatMap Submission.items
  /-- After the last frame, only what came in during it or later waits. -/
  waits : ∀ before during after, events = before ++ .frame during :: after →
    after.countP Event.isFrame = 0 →
    s.queue.waiting.toList =
      (during.flatten ++ after.flatMap Event.submissions).flatMap Submission.items
  /-- Each outcome is that of the operation's own execution, in the world that those before it and
  the frames so far have left. -/
  executed : w.serve (frames.map (·.map Prod.fst)) = (frames, s.world)
  /-- The operations of one submission are executed one after the other in one frame, or wait one
  behind the other, after all that was appended before them. -/
  together : ∀ before own after, events.flatMap Event.submissions = before ++ own :: after →
    (∃ earlier frame later front block back, frames = earlier ++ frame :: later ∧
        frame = front ++ block ++ back ∧ block.map Prod.fst = own.items ∧
        (earlier.flatten ++ front).map Prod.fst = before.flatMap Submission.items) ∨
      ∃ front back, s.queue.waiting.toList = front ++ own.items ++ back ∧
        frames.flatten.map Prod.fst ++ front = before.flatMap Submission.items
  /-- The responses are those to the operations that asked, each on its channel and with its token
  and outcome, in the order of execution. -/
  answered : s.posted =
    frames.flatten.filterMap fun e => e.1.reply.map fun r => (r.channel, ⟨r.token, e.2⟩)
  /-- On each channel responses come in the order of the commands submitted with it, and the commands
  not yet answered wait in that order. -/
  channelOrder : ∀ channel,
    (s.posted.filter fun p => p.1 = channel).map (·.2.token) ++
        s.queue.waiting.toList.filterMap (·.tokenOn channel) =
      (events.flatMap Event.submissions).filterMap (Submission.asked channel)
  /-- The first responses on each channel are one to each command submitted with it before a frame. -/
  onceAnswered : ∀ before during after, events = before ++ .frame during :: after → ∀ channel,
    (before.flatMap Event.submissions).filterMap (Submission.asked channel) <+:
      (s.posted.filter fun p => p.1 = channel).map (·.2.token)
  /-- The count of what was executed and the length of the queue make up what was appended. -/
  counted : s.executed + s.queue.length =
    ((events.flatMap Event.submissions).flatMap Submission.items).length
  /-- The count of failures is right. -/
  failures : s.failed = (frames.flatten.filter fun e => !e.2.isSuccess).length

namespace Simulation

theorem filterMap_response? (channel : Channel) (log : List Executed) :
    ((log.filterMap response?).filter fun p => p.1 = channel).map (·.2.token) =
      (log.map Prod.fst).filterMap (·.tokenOn channel) := by
  induction log with
  | nil => rfl
  | cons e log ih =>
      obtain ⟨⟨op, reply⟩, outcome⟩ := e
      rw [List.filterMap_cons, List.map_cons, List.filterMap_cons]
      cases reply with
      | none => exact ih
      | some r =>
          by_cases hr : r.channel = channel
          · simp [response?, QueuedOperation.tokenOn, hr, ih]
          · simp [response?, QueuedOperation.tokenOn, hr, ih]

theorem filterMap_tokenOn (channel : Channel) (submissions : List Submission) :
    (submissions.flatMap Submission.items).filterMap (·.tokenOn channel) =
      submissions.filterMap (Submission.asked channel) := by
  induction submissions with
  | nil => rfl
  | cons own rest ih =>
      rw [List.flatMap_cons, List.filterMap_append, ih, QueuedOperation.tokenOn_items,
        List.filterMap_cons]
      cases own.asked channel <;> rfl

theorem map_fst_flatten {frames : List (List Executed)} {groups : List (List Submission)}
    (hframes : frames.map (·.map Prod.fst) = groups.map (·.flatMap Submission.items)) :
    frames.flatten.map Prod.fst = groups.flatten.flatMap Submission.items := by
  rw [List.map_flatten, hframes, List.flatMap_def, List.map_flatten, List.flatten_flatten,
    List.map_map]
  simp [List.flatMap_def, Function.comp_def]

theorem exists_block {frames : List (List Executed)} {earlier later : List (List Submission)}
    {front back : List Submission} {own : Submission}
    (hframes : frames.map (·.map Prod.fst) =
      (earlier ++ (front ++ own :: back) :: later).map (·.flatMap Submission.items)) :
    ∃ earlier' frame later' front' block back', frames = earlier' ++ frame :: later' ∧
      frame = front' ++ block ++ back' ∧ block.map Prod.fst = own.items ∧
      (earlier'.flatten ++ front').map Prod.fst =
        (earlier.flatten ++ front).flatMap Submission.items := by
  rw [List.map_append, List.map_cons] at hframes
  obtain ⟨earlier', rest, rfl, hearlier, hrest⟩ := List.map_eq_append_iff.mp hframes
  obtain ⟨frame, later', rfl, hframe, -⟩ := List.map_eq_cons_iff.mp hrest
  rw [List.flatMap_append, List.flatMap_cons] at hframe
  obtain ⟨front', rest', rfl, hfront, hrest'⟩ := List.map_eq_append_iff.mp hframe
  obtain ⟨block, back', rfl, hblock, -⟩ := List.map_eq_append_iff.mp hrest'
  refine ⟨earlier', _, later', front', block, back', rfl, (List.append_assoc ..).symm, hblock, ?_⟩
  rw [List.map_append, List.flatMap_append, map_fst_flatten hearlier, hfront]

/-- Every run of a simulation delivers what was submitted. -/
theorem run_delivers (w : World) (events : List Event) :
    ∃ frames, Delivers w events ((ofWorld w).run events) frames := by
  obtain ⟨hworld, hqueue, hposted, hexecuted, hfailed⟩ := (ofWorld w).run_eq [] rfl events
  have hflatten := flatten_intakes [] events
  have hcount := length_intakes [] events
  have hframe {before after : List Event} {during : List (List Submission)}
      (h : events = before ++ .frame during :: after) := intakes_of_frame h
  rw [List.nil_append] at hflatten
  generalize (intakes [] events).1 = taken at *
  generalize (intakes [] events).2 = left at *
  let frames := (w.serve (taken.map (·.flatMap Submission.items))).1
  have hfst : frames.map (·.map Prod.fst) = taken.map (·.flatMap Submission.items) :=
    w.map_fst_serve _
  have hlog := map_fst_flatten hfst
  have hinOrder : frames.flatten.map Prod.fst ++ ((ofWorld w).run events).queue.waiting.toList =
      (events.flatMap Event.submissions).flatMap Submission.items := by
    rw [hlog, hqueue, ← List.flatMap_append, hflatten]
  have htaken (before : List Event) (during : List (List Submission)) (after : List Event)
      (h : events = before ++ .frame during :: after) :
      (frames.take (before.countP Event.isFrame + 1)).flatten.map Prod.fst =
        (before.flatMap Event.submissions).flatMap Submission.items := by
    rw [← (hframe h).1]
    apply map_fst_flatten
    rw [List.map_take, hfst, List.map_take]
  have hchannel (channel : Channel) :
      (((ofWorld w).run events).posted.filter fun p => p.1 = channel).map (·.2.token) =
        (frames.flatten.map Prod.fst).filterMap (·.tokenOn channel) := by
    rw [hposted]
    exact filterMap_response? channel frames.flatten
  refine ⟨frames, ?_, hinOrder, htaken, ?_, ?_, ?_, hposted, ?_, ?_, ?_, ?_⟩
  · have hlength := congrArg List.length hfst
    rw [List.length_map, List.length_map] at hlength
    exact hlength.trans hcount
  · intro before during after h hlast
    rw [hqueue, (hframe h).2 hlast]
  · rw [hfst, hworld]
    rfl
  · intro before own after hown
    rw [← hflatten] at hown
    rcases exists_group hown with ⟨earlier, group, later, front, back, htaken, hgroup, hbefore⟩ |
      ⟨front, hleft, hbefore⟩
    · rw [htaken, hgroup] at hfst
      rw [hbefore]
      exact .inl (exists_block hfst)
    · refine .inr ⟨front.flatMap Submission.items, after.flatMap Submission.items, ?_, ?_⟩
      · rw [hqueue, hleft, List.flatMap_append, List.flatMap_cons, List.append_assoc]
      · rw [hlog, hbefore, List.flatMap_append]
  · intro channel
    rw [hchannel, ← List.filterMap_append, hinOrder, filterMap_tokenOn]
  · intro before during after h channel
    have hsplit := congrArg List.flatten
      (List.take_append_drop (before.countP Event.isFrame + 1) frames)
    rw [List.flatten_append] at hsplit
    rw [hchannel, ← filterMap_tokenOn, ← htaken before during after h, ← hsplit, List.map_append,
      List.filterMap_append]
    exact List.prefix_append _ _
  · have hlength := congrArg List.length hinOrder
    rw [List.length_append, List.length_map] at hlength
    rw [← hlength, hexecuted]
    exact congrArg (· + _) (Nat.zero_add _)
  · rw [hfailed, List.countP_eq_length_filter]
    exact Nat.zero_add _

end Simulation

end Terrarium
