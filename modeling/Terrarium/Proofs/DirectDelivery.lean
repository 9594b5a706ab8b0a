import Terrarium.Proofs.CommandFlow

namespace Terrarium

variable {κ : Type} {w : World} {channel : Channel}

/-- A client in the same program as its simulation, and the calls so far. -/
structure Direct (κ : Type) where
  client : Client κ
  simulation : Simulation
  calls : List (Call κ)

namespace Direct

/-- What a client in the same program and its simulation do. -/
inductive Act (κ : Type) where
  | send (op : Operation) (callback : Option κ)
  | frame
  | pump

def Act.sent? : Act κ → Option (Operation × Option κ)
  | .send op callback => some (op, callback)
  | .frame | .pump => none

/-- A new client of a simulation of a world. -/
def start (w : World) : Direct κ := ⟨.new, .ofWorld w, []⟩

def act (channel : Channel) (d : Direct κ) : Act κ → Direct κ
  | .send op callback =>
      let (_, client, simulation) :=
        d.client.send (Transport.direct channel) d.simulation op callback
      { d with client, simulation }
  | .frame => { d with simulation := d.simulation.frame }
  | .pump =>
      let (_, calls, client, simulation) := d.client.pump (Transport.direct channel) d.simulation
      ⟨client, simulation, d.calls ++ calls⟩

def run (channel : Channel) (d : Direct κ) (acts : List (Act κ)) : Direct κ :=
  acts.foldl (act channel) d

/-- Everything queued was executed, and all responses were collected. -/
structure AtRest (d : Direct κ) : Prop where
  executed : d.simulation.queue.isEmpty
  pumped : d.simulation.posted = []

/-- What was sent and its answers are where the stages say: nothing is ever on its way. -/
structure Follows (w : World) (channel : Channel) (sends : List (Operation × Option κ))
    (g : Stages κ) (log : List Executed) (d : Direct κ) : Prop where
  underway : Underway w channel sends g log d.client d.simulation
  flow : Flow w channel g d.client d.simulation d.calls
  out : g.out = []
  back : g.back = []

variable {sends : List (Operation × Option κ)} {g : Stages κ} {log : List Executed} {d : Direct κ}

theorem follows_start (hw : w.Registered) (channel : Channel) :
    Follows w channel [] Stages.empty [] (start w : Direct κ) :=
  ⟨.start hw, .start _ rfl, rfl, rfl⟩

theorem Follows.act (h : Follows w channel sends g log d)
    (hbound : Client.asked sends < UInt64.size) (a : Act κ) :
    ∃ g' log', Follows w channel (sends ++ a.sent?.toList) g' log' (d.act channel a) := by
  cases a with
  | send op callback =>
      have hsent : ((Transport.direct channel).send d.simulation
          (d.client.request op callback).1).1 = .ok () := rfl
      obtain ⟨hwaiting, hnext, hstate⟩ := Client.send_accepted hsent
      have hout : g.out ++ [d.client.request op callback] =
          [d.client.request op callback] ++ [] := by
        rw [h.out]
        rfl
      have hsubmit := (h.underway.send hnext).submitAll hout
      rw [Direct.act]
      dsimp only
      rw [hstate]
      exact ⟨_, log, hsubmit, (h.flow.send hwaiting).submitAll hout rfl, rfl, h.back⟩
  | frame =>
      have hflow := h.flow.frame h.underway.executes (h.underway.proper_queued hbound)
      rw [Act.sent?, Option.toList_none, List.append_nil]
      exact ⟨_, _, h.underway.frame, hflow, h.out, h.back⟩
  | pump =>
      have hresponses : (d.simulation.collect channel).1 = g.posted.map Answer.response := by
        rw [Simulation.collect, h.flow.posted, List.filterMap_map]
        simp
      have hposted : (d.simulation.collect channel).2.posted = [] := by
        rw [Simulation.collect, h.flow.posted, List.filter_map]
        simp
      have hback : g.back ++ g.posted = g.posted ++ [] := by
        rw [h.back, List.append_nil]
        rfl
      have hflow := (h.flow.collect hposted).dispatchAll (h.underway.nodup_tokens hbound) hback
      have hnext := d.client.nextToken_dispatchAll (g.posted.map Answer.response)
      rw [← hresponses] at hflow hnext
      rw [Act.sent?, Option.toList_none, List.append_nil]
      exact ⟨_, log, h.underway.answered hnext rfl rfl, hflow, h.out, rfl⟩

theorem Follows.run (h : Follows w channel sends g log d) (acts : List (Act κ))
    (hbound : Client.asked (sends ++ acts.filterMap Act.sent?) < UInt64.size) :
    ∃ g' log',
      Follows w channel (sends ++ acts.filterMap Act.sent?) g' log' (d.run channel acts) := by
  induction acts generalizing sends g log d with
  | nil =>
      rw [List.filterMap_nil, List.append_nil]
      exact ⟨g, log, h⟩
  | cons a acts ih =>
      have hfirst := Nat.lt_of_le_of_lt (Client.asked_le_append sends _) hbound
      rw [filterMap_cons_toList, ← List.append_assoc] at hbound ⊢
      obtain ⟨g', log', hnext⟩ := h.act hfirst a
      exact ih hnext hbound

/-- In one program the calls made are the first ones of those that are due, and all of them are made
when everything has come to rest. -/
theorem run_calls (hw : w.Registered) (channel : Channel) (acts : List (Act κ))
    (hbound : Client.asked (acts.filterMap Act.sent?) < UInt64.size) :
    let d := (start w).run channel acts
    d.calls <+: w.callsDue (acts.filterMap Act.sent?) ∧
      (d.AtRest → d.client.pending = 0 ∧ d.calls = w.callsDue (acts.filterMap Act.sent?)) := by
  intro d
  obtain ⟨g, log, h⟩ := (follows_start hw channel).run acts hbound
  rw [List.nil_append] at h
  have hdue := h.underway.callsDue
  refine ⟨hdue ▸ h.flow.calls_prefix, fun hrest => ?_⟩
  obtain ⟨hcalls, hpending⟩ := h.flow.calls_eq
    (h.underway.executes.queued_eq_nil hrest.executed) h.out h.back
    (h.flow.posted_eq_nil hrest.pumped)
  exact ⟨hpending, hcalls.trans hdue⟩

theorem run_atRest (hw : w.Registered) (channel : Channel) (acts : List (Act κ))
    (hbound : Client.asked (acts.filterMap Act.sent?) < UInt64.size) :
    ((start w).run channel (acts ++ [.frame, .pump])).AtRest := by
  obtain ⟨g, log, h⟩ := (follows_start hw channel).run acts hbound
  obtain ⟨g', log', hframe⟩ := h.act hbound .frame
  have hrun : (start w).run channel (acts ++ [.frame, .pump]) =
      (((start w).run channel acts).act channel .frame).act channel .pump :=
    List.foldl_append
  rw [hrun]
  refine ⟨rfl, ?_⟩
  change (((start w).run channel acts).act channel .frame).simulation.posted.filter _ = []
  rw [hframe.flow.posted, List.filter_map]
  simp

theorem exists_run_atRest (hw : w.Registered) (channel : Channel)
    (hbound : Client.asked sends < UInt64.size) :
    ∃ acts : List (Act κ), acts.filterMap Act.sent? = sends ∧
      ((start w).run channel acts).AtRest := by
  have hsent : (sends.map fun s => Act.send s.1 s.2).filterMap Act.sent? = sends := by
    rw [List.filterMap_map]
    exact List.filterMap_some
  refine ⟨sends.map (fun s => Act.send s.1 s.2) ++ [.frame, .pump], ?_, ?_⟩
  · rw [List.filterMap_append, hsent]
    exact List.append_nil sends
  · exact run_atRest hw channel _ (by rwa [hsent])

end Direct

end Terrarium
