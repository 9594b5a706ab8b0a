import Mathlib.Data.List.Infix
import Terrarium.Proofs.GridSize

/-!
The basin between two threads. The main thread starts steps, waits for them, and writes the back
buffer after it has waited; a worker runs and publishes the steps in their order and counts them.
However their turns fall, the basin is what it would be if every step ran at once when it is
started, and a reader of the front buffer sees what one of the steps left.
-/
namespace Terrarium

/-- What the main thread asks of a basin. It takes hold of the back buffer, writes it, and lets it
go again. -/
inductive BasinCall where
  | start
  | wait
  | hold
  | write (f : Grid Cell → Grid Cell)
  | release
  | setOcean (level : Float32)
  | addSource (id : ObjectId)
  | removeSource (id : ObjectId)
  | invalidate
  | mapSources (source? : ObjectId → Option Source)

namespace BasinCall

def isStart : BasinCall → Bool
  | start => true
  | _ => false

def starts (calls : List BasinCall) : Nat := calls.countP isStart

end BasinCall

namespace Basin

/-- Answers a call at once: a step that is started runs to its end. -/
def answer (b : Basin) : BasinCall → Basin
  | .start => b.start.wait
  | .wait => b.wait
  | .hold => b.wait
  | .write f => b.write f
  | .release => b
  | .setOcean level => b.setOcean level
  | .addSource id => b.addSource id
  | .removeSource id => b.removeSource id
  | .invalidate => b.invalidate
  | .mapSources source? => b.mapSources source?

def answerAll (b : Basin) (calls : List BasinCall) : Basin := calls.foldl answer b

end Basin

/-- A basin, the step that the worker has published and not yet counted, and whether the main thread
holds the back buffer. -/
structure Tandem where
  basin : Basin
  hand : Option Job
  held : Bool

namespace Tandem

/-- A basin on which neither thread is at work. -/
def rest (b : Basin) : Tandem := ⟨b, none, false⟩

/-- The steps that are started and not yet counted, oldest first. -/
def inFlight (t : Tandem) : List Job := t.hand.toList ++ t.basin.waiting

/-- While it holds the back buffer, the main thread writes it and lets it go. -/
def callHolding (t : Tandem) : BasinCall → Option Tandem
  | .write f => some { t with basin := { t.basin with back := f t.basin.back } }
  | .release => some { t with held := false }
  | _ => none

/-- Otherwise it makes any other call, and waits until all steps are counted before it goes on or
takes hold of the back buffer. -/
def callFree (t : Tandem) : BasinCall → Option Tandem
  | .start => some { t with basin := t.basin.start }
  | .wait => if t.basin.isIdle then some t else none
  | .hold => if t.basin.isIdle then some { t with held := true } else none
  | .setOcean level => some { t with basin := t.basin.setOcean level }
  | .addSource id => some { t with basin := t.basin.addSource id }
  | .removeSource id => some { t with basin := t.basin.removeSource id }
  | .invalidate => some { t with basin := t.basin.invalidate }
  | .mapSources source? => some { t with basin := t.basin.mapSources source? }
  | _ => none

def call (t : Tandem) (c : BasinCall) : Option Tandem :=
  if t.held then t.callHolding c else t.callFree c

/-- The worker takes the oldest step that waits, runs it and publishes the result. -/
def publish (t : Tandem) : Option Tandem :=
  match t.hand, t.basin.waiting with
  | none, job :: _ => some { t with basin := t.basin.publish, hand := some job }
  | _, _ => none

/-- The worker counts the step that it has published. -/
def count (t : Tandem) : Option Tandem :=
  match t.hand with
  | some _ => some { t with basin := t.basin.finish, hand := none }
  | none => none

/-- The turns of the two threads. -/
inductive Turn where
  | call (c : BasinCall)
  | publish
  | count

def turn (t : Tandem) : Turn → Option Tandem
  | .call c => t.call c
  | .publish => t.publish
  | .count => t.count

/-- Turns one after the other, as long as none of them has to wait. -/
def turns (t : Tandem) : List Turn → Option Tandem
  | [] => some t
  | e :: rest => (t.turn e).bind fun t' => t'.turns rest

def Turn.call? : Turn → Option BasinCall
  | call c => some c
  | _ => none

end Tandem

namespace Basin

variable {b : Basin}

theorem wait_eq_self (hwaiting : b.waiting = []) (hidle : b.finished = b.started) : b.wait = b := by
  obtain ⟨ocean, sources, reaches, stale, back, front, waiting, started, finished⟩ := b
  cases hwaiting
  cases hidle
  rfl

theorem wait_publish (b : Basin) : b.publish.wait = b.wait := by
  rw [publish]
  cases hwaiting : b.waiting with
  | nil => rfl
  | cons job rest =>
      rw [wait, wait, hwaiting]
      cases rest <;> rfl

theorem wait_finish (b : Basin) : b.finish.wait = b.wait := by
  rw [finish]
  split <;> rfl

theorem wait_start (b : Basin) : b.start.wait = b.wait.start.wait := by
  have hne : (b.waiting ++ [(⟨b.reaches, b.ocean⟩ : Job)]).isEmpty = false := by simp
  simp only [wait, start, List.foldl_append, hne]
  rfl

theorem wait_mapSources (b : Basin) (source? : ObjectId → Option Source) :
    (b.mapSources source?).wait = b.wait.mapSources source? := by
  rw [mapSources, mapSources, size_wait]
  rfl

/-- What the front buffer shows after some more steps are published. -/
def shown (b : Basin) : Nat → Grid Cell
  | 0 => b.front
  | n + 1 => (b.waiting.take (n + 1)).foldl Fluid.step b.back

theorem shown_publish {n : Nat} (hn : n < b.waiting.length) :
    b.publish.shown n = b.shown (n + 1) := by
  rw [publish]
  cases hwaiting : b.waiting with
  | nil => simp [hwaiting] at hn
  | cons job rest =>
      cases n with
      | zero => simp [shown, hwaiting]
      | succ n => simp [shown, hwaiting]

theorem shown_start_of_le {n : Nat} (hn : n ≤ b.waiting.length) : b.start.shown n = b.shown n := by
  cases n with
  | zero => rfl
  | succ n => simp only [shown, start, List.take_append_of_le_length hn]

theorem shown_start (b : Basin) : b.start.shown (b.waiting.length + 1) = b.start.wait.front := by
  rw [shown, start, List.take_of_length_le (by simp), wait]
  simp

theorem publish_eq {b : Basin} {job : Job} {rest : List Job} (hwaiting : b.waiting = job :: rest) :
    b.publish = { b with
      back := Fluid.step b.back job
      front := Fluid.step b.back job
      waiting := rest } := by
  rw [publish, hwaiting]

end Basin

namespace Tandem

/-- Where a basin stands after calls, whatever turns led there. -/
structure Agrees (m : HeightMap) (calls : List BasinCall) (t : Tandem) : Prop where
  counts : t.basin.started = t.basin.finished + t.inFlight.length
  started : t.basin.started = BasinCall.starts calls
  quiet : t.held → t.inFlight = []
  due : t.basin.wait = (Basin.new m).answerAll calls
  shown : ∀ n ≤ t.basin.waiting.length, ∃ made, made <+: calls ∧
    BasinCall.starts made + t.basin.waiting.length = t.basin.started + n ∧
    t.basin.shown n = ((Basin.new m).answerAll made).front

variable {m : HeightMap} {calls : List BasinCall} {c : BasinCall} {t t' : Tandem}

theorem agrees_rest (m : HeightMap) : Agrees m [] (rest (Basin.new m)) where
  counts := rfl
  started := rfl
  quiet := nofun
  due := rfl
  shown n hn := by
    obtain rfl : n = 0 := Nat.le_zero.mp hn
    exact ⟨[], List.prefix_rfl, rfl, rfl⟩

theorem Agrees.publish (h : Agrees m calls t) (hturn : t.publish = some t') :
    Agrees m calls t' := by
  rw [Tandem.publish] at hturn
  split at hturn
  · rename_i job rest hhand hwaiting
    cases hturn
    have hflight : t.inFlight = job :: rest := by
      rw [inFlight, hhand, hwaiting]
      rfl
    have hpublish := Basin.publish_eq hwaiting
    refine ⟨?_, ?_, ?_, ?_, ?_⟩
    · have hcounts := h.counts
      rw [hflight] at hcounts
      rwa [hpublish]
    · have hstarted := h.started
      rwa [hpublish]
    · intro hheld
      have hquiet := h.quiet hheld
      rw [hflight] at hquiet
      cases hquiet
    · exact t.basin.wait_publish.trans h.due
    · intro n hn
      dsimp only at hn ⊢
      have hlength : t.basin.publish.waiting.length + 1 = t.basin.waiting.length := by
        rw [hpublish, hwaiting]
        rfl
      obtain ⟨made, hprefix, hmade, hshown⟩ := h.shown (n + 1) (by omega)
      have hstarted : t.basin.publish.started = t.basin.started := by rw [hpublish]
      refine ⟨made, hprefix, by omega, ?_⟩
      rw [Basin.shown_publish (by omega), hshown]
  · cases hturn

theorem Agrees.count (h : Agrees m calls t) (hturn : t.count = some t') : Agrees m calls t' := by
  rw [Tandem.count] at hturn
  split at hturn
  · rename_i job hhand
    cases hturn
    have hflight : t.inFlight = job :: t.basin.waiting := by
      rw [inFlight, hhand]
      rfl
    have hcounts := h.counts
    rw [hflight, List.length_cons] at hcounts
    have hfinish : t.basin.finish = { t.basin with finished := t.basin.finished + 1 } :=
      if_pos (by omega)
    refine ⟨?_, ?_, ?_, ?_, ?_⟩
    · rw [hfinish]
      change t.basin.started = t.basin.finished + 1 + t.basin.waiting.length
      omega
    · rw [hfinish]
      exact h.started
    · intro hheld
      have hquiet := h.quiet hheld
      rw [hflight] at hquiet
      cases hquiet
    · exact t.basin.wait_finish.trans h.due
    · rw [hfinish]
      exact h.shown
  · cases hturn

theorem answerAll_concat (b : Basin) (calls : List BasinCall) (c : BasinCall) :
    b.answerAll (calls ++ [c]) = (b.answerAll calls).answer c := by
  rw [Basin.answerAll, Basin.answerAll, List.foldl_append]
  rfl

theorem starts_concat (calls : List BasinCall) (c : BasinCall) :
    BasinCall.starts (calls ++ [c]) = BasinCall.starts calls + if c.isStart then 1 else 0 := by
  rw [BasinCall.starts, BasinCall.starts, List.countP_append, List.countP_singleton]

theorem Agrees.concat (h : Agrees m calls t) (hc : c.isStart = false)
    (hstarted : t'.basin.started = t.basin.started)
    (hfinished : t'.basin.finished = t.basin.finished)
    (hwaiting : t'.basin.waiting = t.basin.waiting) (hhand : t'.hand = t.hand)
    (hquiet : t'.held → t.inFlight = [])
    (hdue : t'.basin.wait = t.basin.wait.answer c)
    (hshown : ∀ n ≤ t.basin.waiting.length, t'.basin.shown n = t.basin.shown n) :
    Agrees m (calls ++ [c]) t' := by
  have hflight : t'.inFlight = t.inFlight := by rw [inFlight, inFlight, hhand, hwaiting]
  refine ⟨?_, ?_, ?_, ?_, ?_⟩
  · rw [hstarted, hfinished, hflight]
    exact h.counts
  · rw [starts_concat, hc, hstarted, h.started]
    rfl
  · rwa [hflight]
  · rw [answerAll_concat, hdue, h.due]
  · intro n hn
    rw [hwaiting] at hn ⊢
    obtain ⟨made, hprefix, hmade, hsame⟩ := h.shown n hn
    exact ⟨made, hprefix.trans (List.prefix_append _ _), by omega, (hshown n hn).trans hsame⟩

theorem Agrees.start (h : Agrees m calls t) (hfree : t.held = false) :
    Agrees m (calls ++ [.start]) { t with basin := t.basin.start } := by
  have hlength : t.basin.start.waiting.length = t.basin.waiting.length + 1 :=
    List.length_append
  have hdue : t.basin.start.wait = (Basin.new m).answerAll (calls ++ [.start]) := by
    rw [answerAll_concat, ← h.due, Basin.wait_start]
    rfl
  refine ⟨?_, ?_, ?_, hdue, ?_⟩
  · have hcounts := h.counts
    rw [inFlight, List.length_append] at hcounts ⊢
    dsimp only
    rw [hlength]
    change t.basin.started + 1 = t.basin.finished + _
    omega
  · rw [starts_concat, ← h.started]
    rfl
  · intro hheld
    rw [hfree] at hheld
    cases hheld
  · intro n hn
    dsimp only at hn ⊢
    have hstarted : t.basin.start.started = t.basin.started + 1 := rfl
    rcases Nat.lt_or_eq_of_le (hlength ▸ hn) with hlt | rfl
    · obtain ⟨made, hprefix, hmade, hsame⟩ := h.shown n (by omega)
      refine ⟨made, hprefix.trans (List.prefix_append _ _), by omega, ?_⟩
      rw [Basin.shown_start_of_le (by omega), hsame]
    · refine ⟨calls ++ [.start], List.prefix_rfl, ?_, ?_⟩
      · rw [starts_concat, ← h.started]
        change t.basin.started + 1 + _ = _
        omega
      · rw [Basin.shown_start, hdue]

theorem isIdle_iff (h : Agrees m calls t) : t.basin.isIdle ↔ t.inFlight = [] := by
  have hcounts := h.counts
  rw [Basin.isIdle, decide_eq_true_iff, ← List.length_eq_zero_iff]
  omega

theorem waiting_eq_nil (hflight : t.inFlight = []) : t.basin.waiting = [] :=
  (List.append_eq_nil_iff.mp hflight).2

theorem Agrees.write (h : Agrees m calls t) (hheld : t.held) (f : Grid Cell → Grid Cell) :
    Agrees m (calls ++ [.write f]) { t with basin := { t.basin with back := f t.basin.back } } := by
  have hwaiting := waiting_eq_nil (h.quiet hheld)
  refine h.concat rfl rfl rfl rfl rfl h.quiet ?_ ?_
  · simp [Basin.answer, Basin.write, Basin.wait, hwaiting]
  · intro n hn
    rw [hwaiting] at hn
    obtain rfl : n = 0 := Nat.le_zero.mp hn
    rfl

theorem Agrees.call (h : Agrees m calls t) (hturn : t.call c = some t') :
    Agrees m (calls ++ [c]) t' := by
  rw [Tandem.call] at hturn
  split at hturn
  · rename_i hheld
    cases c with
    | write f =>
        cases hturn
        exact h.write hheld f
    | release =>
        cases hturn
        exact h.concat rfl rfl rfl rfl rfl nofun rfl fun _ _ => rfl
    | _ => cases hturn
  · rename_i hfree
    cases c with
    | start =>
        cases hturn
        exact h.start (Bool.eq_false_iff.mpr hfree)
    | wait =>
        rw [callFree] at hturn
        split at hturn <;> cases hturn
        exact h.concat rfl rfl rfl rfl rfl h.quiet rfl fun _ _ => rfl
    | hold =>
        rw [callFree] at hturn
        split at hturn <;> cases hturn
        rename_i hidle
        exact h.concat rfl rfl rfl rfl rfl (fun _ => (isIdle_iff h).mp hidle) rfl fun _ _ => rfl
    | mapSources source? =>
        cases hturn
        exact h.concat rfl rfl rfl rfl rfl h.quiet (t.basin.wait_mapSources source?) fun n _ => by
          cases n <;> rfl
    | write f | release => cases hturn
    | _ =>
        cases hturn
        exact h.concat rfl rfl rfl rfl rfl h.quiet rfl fun n _ => by cases n <;> rfl

theorem Agrees.turns (h : Agrees m calls t) {taken : List Turn} (hturns : t.turns taken = some t') :
    Agrees m (calls ++ taken.filterMap Turn.call?) t' := by
  induction taken generalizing calls t with
  | nil =>
      cases hturns
      rwa [List.filterMap_nil, List.append_nil]
  | cons e taken ih =>
      obtain ⟨next, hturn, hrest⟩ := Option.bind_eq_some_iff.mp hturns
      cases e with
      | call c =>
          have := ih (h.call hturn) hrest
          rwa [List.append_assoc] at this
      | publish => exact ih (h.publish hturn) hrest
      | count => exact ih (h.count hturn) hrest

theorem Agrees.basin_eq (h : Agrees m calls t) (hflight : t.inFlight = []) :
    t.basin = (Basin.new m).answerAll calls := by
  have hidle := (isIdle_iff h).mpr hflight
  rw [← h.due]
  exact (Basin.wait_eq_self (waiting_eq_nil hflight) (of_decide_eq_true hidle)).symm

theorem Agrees.back_call (h : Agrees m calls t) (hturn : t.call c = some t')
    (hflight : t.inFlight ≠ []) : t'.basin.back = t.basin.back ∧ ∀ f, c ≠ .write f := by
  have hfree : ¬t.held := fun hheld => hflight (h.quiet hheld)
  rw [Tandem.call, if_neg hfree] at hturn
  cases c with
  | write f | release => cases hturn
  | wait | hold =>
      rw [callFree] at hturn
      split at hturn <;> cases hturn
      exact ⟨rfl, nofun⟩
  | _ =>
      cases hturn
      exact ⟨rfl, nofun⟩

theorem waiting_finish (b : Basin) : b.finish.waiting = b.waiting := by
  rw [Basin.finish]
  split <;> rfl

/-- Turns of the worker alone. -/
def IsWork (taken : List Turn) : Prop := ∀ e ∈ taken, e.call? = none

theorem exists_work_free (t : Tandem) (hhand : t.hand = none) :
    ∃ work t', IsWork work ∧ t.turns work = some t' ∧ t'.inFlight = [] := by
  induction hwaiting : t.basin.waiting generalizing t with
  | nil =>
      refine ⟨[], t, nofun, rfl, ?_⟩
      rw [inFlight, hhand, hwaiting]
      rfl
  | cons job rest ih =>
      -- The oldest step is published and counted, and the others are worked off likewise.
      have hpublish : t.publish = some { t with basin := t.basin.publish, hand := some job } := by
        rw [Tandem.publish, hhand, hwaiting]
      have hrest : t.basin.publish.finish.waiting = rest := by
        rw [waiting_finish, Basin.publish_eq hwaiting]
      obtain ⟨work, t', hwork, hturns, hflight⟩ :=
        ih { t with basin := t.basin.publish.finish, hand := none } rfl hrest
      refine ⟨.publish :: .count :: work, t', ?_, ?_, hflight⟩
      · exact List.forall_mem_cons.mpr ⟨rfl, List.forall_mem_cons.mpr ⟨rfl, hwork⟩⟩
      · rw [Tandem.turns, turn, hpublish]
        exact hturns

/-- The worker can always bring the steps in flight to their end. -/
theorem exists_work (t : Tandem) :
    ∃ work t', IsWork work ∧ t.turns work = some t' ∧ t'.inFlight = [] := by
  cases hhand : t.hand with
  | none => exact exists_work_free t hhand
  | some job =>
      have hcount : t.count = some { t with basin := t.basin.finish, hand := none } := by
        rw [count, hhand]
      obtain ⟨work, t', hwork, hturns, hflight⟩ :=
        exists_work_free { t with basin := t.basin.finish, hand := none } rfl
      refine ⟨.count :: work, t', List.forall_mem_cons.mpr ⟨rfl, hwork⟩, ?_, hflight⟩
      rw [Tandem.turns, turn, hcount]
      exact hturns

/-- Working the steps in flight off leads to where waiting leads to. -/
theorem Agrees.work_eq (h : Agrees m calls t) {work : List Turn} (hwork : IsWork work)
    (hturns : t.turns work = some t') (hflight : t'.inFlight = []) : t'.basin = t.basin.wait := by
  have hcalls : work.filterMap Turn.call? = [] := List.filterMap_eq_nil_iff.mpr hwork
  have hafter := (h.turns hturns).basin_eq hflight
  rw [hafter, hcalls, List.append_nil, h.due]

/-- However the turns of the two threads fall: the steps in flight are those that are started and
not counted, and while there are any the main thread does not write. When there are none, the basin
is the one that answers every call at once. At any time the front buffer shows what this basin
shows after some of the calls, with at least the counted steps and at most the started ones. A thread
that waits is never kept waiting for ever, and what it finds is the basin after `Basin.wait`. -/
theorem schedules_agree (m : HeightMap) (taken : List Turn) (t : Tandem)
    (h : (rest (Basin.new m)).turns taken = some t) :
    let calls := taken.filterMap Turn.call?
    (t.basin.finished ≤ t.basin.started ∧
      t.inFlight.length = t.basin.started - t.basin.finished) ∧
    (∀ c t', t.call c = some t' → t.inFlight ≠ [] →
      t'.basin.back = t.basin.back ∧ ∀ f, c ≠ .write f) ∧
    (t.inFlight = [] → t.basin = (Basin.new m).answerAll calls) ∧
    t.basin.started = BasinCall.starts calls ∧
    (∃ made, made <+: calls ∧ t.basin.finished ≤ BasinCall.starts made ∧
      BasinCall.starts made ≤ t.basin.started ∧
      t.basin.front = ((Basin.new m).answerAll made).front) ∧
    (∃ work t', IsWork work ∧ t.turns work = some t' ∧ t'.inFlight = []) ∧
    ∀ work t', IsWork work → t.turns work = some t' → t'.inFlight = [] →
      t'.basin = t.basin.wait := by
  intro calls
  have hagrees : Agrees m calls t := (agrees_rest m).turns h
  have hcounts := hagrees.counts
  obtain ⟨made, hprefix, hmade, hshown⟩ := hagrees.shown 0 (Nat.zero_le _)
  have hflight : t.inFlight.length = t.hand.toList.length + t.basin.waiting.length :=
    List.length_append
  exact ⟨⟨by omega, by omega⟩, fun c t' => hagrees.back_call, hagrees.basin_eq, hagrees.started,
    ⟨made, hprefix, by omega, by omega, hshown⟩, exists_work t, fun work t' => hagrees.work_eq⟩

/-- Two steps are started, of which the worker has published one and counted none. The front buffer
shows the ocean as it was when the first step was started. -/
theorem schedules_agree_behind :
    let taken : List Turn :=
      [.call (.setOcean 30), .call .start, .call (.setOcean 25), .call .start, .publish]
    ∃ t, (rest (Basin.new (HeightMap.new 2))).turns taken = some t ∧
      (t.hand.isSome ∧ t.basin.waiting.length = 1 ∧ t.basin.front.get? 0 0 = some ⟨20, 10⟩) ∧
      t.inFlight.length = t.basin.started - t.basin.finished ∧
      ∃ made, made <+: taken.filterMap Turn.call? ∧ t.basin.finished ≤ BasinCall.starts made ∧
        BasinCall.starts made ≤ t.basin.started ∧
        t.basin.front = ((Basin.new (HeightMap.new 2)).answerAll made).front := by
  intro taken
  refine ⟨_, rfl, by decide +kernel, ?_, ?_⟩
  · exact (schedules_agree _ taken _ rfl).1.2
  · exact (schedules_agree _ taken _ rfl).2.2.2.2.1

end Tandem

end Terrarium
