import Terrarium.Server.Simulation

namespace Terrarium

/-- What a submitter hands over at once. -/
inductive Submission where
  | enqueue (op : Operation)
  | enqueueAll (ops : List Operation)
  | submit (c : Command) (channel : Channel)

/-- What a submission appends to the queue: only a command with a token asks for a response. -/
def Submission.items : Submission → List QueuedOperation
  | .enqueue op => [⟨op, none⟩]
  | .enqueueAll ops => ops.map fun op => ⟨op, none⟩
  | .submit c channel => [⟨c.op, if c.token = noToken then none else some ⟨c.token, channel⟩⟩]

namespace OperationQueue

@[simp] theorem waiting_pushAll (q : OperationQueue) (items : List QueuedOperation) :
    (q.pushAll items).waiting.toList = q.waiting.toList ++ items := by
  simp [pushAll]

theorem push_eq_pushAll (q : OperationQueue) (item : QueuedOperation) :
    q.push item = q.pushAll [item] := by
  simp [push, pushAll]

theorem pushAll_append (q : OperationQueue) (items more : List QueuedOperation) :
    q.pushAll (items ++ more) = (q.pushAll items).pushAll more := by
  simp [pushAll]

end OperationQueue

namespace Simulation

def accept (s : Simulation) : Submission → Simulation
  | .enqueue op => s.enqueue op
  | .enqueueAll ops => s.enqueueAll ops
  | .submit c channel => s.submit c channel

def acceptAll (s : Simulation) (submissions : List Submission) : Simulation := submissions.foldl accept s

/-- Executes a batch one operation after the other and posts each response. The first submissions of
`during` come in before the first operation, and so on; those that are left come in at the end. The
failures are counted. -/
def executeEach (s : Simulation) (failures : Nat) :
    List QueuedOperation → List (List Submission) → Simulation × Nat
  | [], during => (s.acceptAll during.flatten, failures)
  | item :: batch, during =>
      let s := s.acceptAll (during.headD [])
      let (outcome, world) := s.world.execute item.op
      executeEach { s with world, posted := s.posted ++ (item.answer? outcome).toList }
        (if outcome.isSuccess then failures else failures + 1) batch during.tail

/-- A frame during which submissions come in. -/
def frameDuring (s : Simulation) (during : List (List Submission)) : Simulation :=
  let (batch, queue) := s.queue.takeAll
  let (s, failures) := executeEach { s with world := s.world.wait, queue } 0 batch during
  let world := s.world.upkeep
  { s with
    world := { world with basin := world.basin.start }
    executed := s.executed + batch.length
    failed := s.failed + failures }

theorem accept_eq (s : Simulation) (c : Submission) :
    s.accept c = { s with queue := s.queue.pushAll c.items } := by
  cases c with
  | enqueue op => simp only [accept, enqueue, OperationQueue.push_eq_pushAll]; rfl
  | enqueueAll ops => rfl
  | submit c channel =>
      simp only [accept, submit, OperationQueue.push_eq_pushAll, QueuedOperation.ofCommand,
        Command.wantsResponse, Submission.items, decide_eq_true_eq, ne_eq, ite_not]

theorem acceptAll_eq (s : Simulation) (submissions : List Submission) :
    s.acceptAll submissions = { s with queue := s.queue.pushAll (submissions.flatMap Submission.items) } := by
  induction submissions generalizing s with
  | nil => simp [acceptAll, OperationQueue.pushAll]
  | cons c submissions ih =>
      change (s.accept c).acceptAll submissions = _
      rw [ih, accept_eq, List.flatMap_cons, OperationQueue.pushAll_append]

theorem acceptAll_append (s : Simulation) (submissions more : List Submission) :
    s.acceptAll (submissions ++ more) = (s.acceptAll submissions).acceptAll more :=
  List.foldl_append

theorem length_executeAll (w : World) (ops : List Operation) :
    (w.executeAll ops).1.length = ops.length := by
  induction ops generalizing w with
  | nil => rfl
  | cons op ops ih => simp only [World.executeAll, List.length_cons, ih]

theorem executeEach_eq (s : Simulation) (failures : Nat) (batch : List QueuedOperation)
    (during : List (List Submission)) :
    s.executeEach failures batch during =
      (({ s with
          world := (s.world.executeAll (batch.map (·.op))).2
          posted := s.posted ++ answers batch (s.world.executeAll (batch.map (·.op))).1 } :
          Simulation).acceptAll during.flatten,
        failures + (s.world.executeAll (batch.map (·.op))).1.countP fun o => !o.isSuccess) := by
  induction batch generalizing s failures during with
  | nil => simp [executeEach, World.executeAll, answers]
  | cons item batch ih =>
      have hduring : during.flatten = during.headD [] ++ during.tail.flatten := by
        cases during <;> rfl
      rw [executeEach, hduring, acceptAll_append]
      simp only [acceptAll_eq, ih, List.map_cons, World.executeAll, answers, List.zip_cons_cons,
        List.filterMap_cons, List.countP_cons]
      cases (s.world.execute item.op).1.isSuccess <;>
        cases item.answer? (s.world.execute item.op).1 <;>
        simp <;> omega

/-- What comes in during a frame is taken as if it came after it. -/
theorem frameDuring_eq (s : Simulation) (during : List (List Submission)) :
    s.frameDuring during = s.frame.acceptAll during.flatten := by
  simp only [frameDuring, executeEach_eq, OperationQueue.takeAll, acceptAll_eq, frame, World.frame,
    length_executeAll, List.length_map, Nat.zero_add]

theorem frameDuring_nil (s : Simulation) : s.frameDuring [] = s.frame :=
  s.frameDuring_eq []

end Simulation

end Terrarium
