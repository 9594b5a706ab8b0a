import Mathlib.Data.List.Nodup
import Mathlib.Data.List.Pairwise
import Terrarium.Client.Transport

/-!
Tokens and callbacks of a client. In the history of a client, every command with a callback has a
token of its own, and the first response to it, if the command was accepted, leads to the one call
of the callback. The callbacks that wait are those of the accepted commands without a response.
-/
namespace Terrarium

variable {κ σ : Type}

/-- A command that a transport was handed, and what the transport answered. -/
abbrev Handover := Command × Except TransportError Unit

/-- A transport with the list of what it was handed and answered. -/
def Transport.watched (t : Transport σ) : Transport (σ × List Handover) where
  send s c :=
    let (answer, state) := t.send s.1 c
    (answer, state, s.2 ++ [(c, answer)])
  poll s :=
    let (found, state) := t.poll s.1
    (found, state, s.2)

/-- The responses that a transport has, if it gives any. -/
def Transport.responses (t : Transport σ) (s : σ) : List Response :=
  match (t.poll s).1 with
  | .error _ => []
  | .ok responses => responses

namespace Client

/-- What is done with a client, and to the state of its transport from outside. -/
inductive Use (κ σ : Type) where
  | send (op : Operation) (callback : Option κ)
  | receive (r : Response)
  | pump
  | outside (state : σ)

/-- Whether a use sends a command that wants a response. -/
def Use.asks : Use κ σ → Bool
  | .send _ (some _) => true
  | _ => false

/-- What came of a use: commands were handed over and accepted or refused, and the send had a result;
or a response was received, with what the client said of it, and may have led to a call. -/
inductive Note (κ : Type) where
  | sent (op : Operation) (callback : Option κ) (handed : List Handover)
      (result : Except TransportError UInt64)
  | received (r : Response) (returned : Bool) (call : Option (Call κ))

namespace Note

/-- The tokens handed over with a callback. -/
def tokens : Note κ → List UInt64
  | .sent _ (some _) handed _ => handed.map fun h => h.1.token
  | _ => []

/-- The token and the callback of a command that the transport accepted. -/
def accepted? : Note κ → Option (UInt64 × κ)
  | .sent _ (some callback) [(c, .ok _)] _ => some (c.token, callback)
  | _ => none

/-- The outcome that a response to a token brings. -/
def answer? (n : UInt64) : Note κ → Option Outcome
  | .received r _ _ => if r.token = n then some r.outcome else none
  | .sent .. => none

/-- The call that a response led to. -/
def call? : Note κ → Option (Call κ)
  | .received _ _ call => call
  | .sent .. => none

/-- The call that a response to a token led to. -/
def callUnder? (n : UInt64) : Note κ → Option (Call κ)
  | .received r _ call => if r.token = n then call else none
  | .sent .. => none

end Note

/-- The callbacks of accepted commands without a response, the latest first. -/
def unanswered : List (Note κ) → List (UInt64 × κ)
  | [] => []
  | note :: later =>
      match note.accepted? with
      | none => unanswered later
      | some w =>
          if (later.findSome? (Note.answer? w.1)).isSome then unanswered later
          else unanswered later ++ [w]

/-- The call due under a token: of the callback of the accepted command with this token, and with
the outcome of the first response to it. -/
def due (n : UInt64) : List (Note κ) → Option (Call κ)
  | [] => none
  | note :: later =>
      match note.accepted? with
      | none => due n later
      | some w =>
          if w.1 = n then (later.findSome? (Note.answer? n)).map (w.2, ·) else due n later

/-- The tokens handed over with a callback. -/
def handedTokens (history : List (Note κ)) : List UInt64 := history.flatMap Note.tokens

/-- A history in which every callback is called once, when it is due. -/
structure OneShot (history : List (Note κ)) : Prop where
  handed : ∀ op callback handed result, .sent op callback handed result ∈ history →
    ∃ n answer, handed = [(⟨n, op⟩, answer)] ∧ (n = noToken ↔ callback = none) ∧
      result = answer.map fun _ => n
  increasing : (handedTokens history).Pairwise (· < ·)
  called : ∀ n, history.filterMap (Note.callUnder? n) = (due n history).toList
  answered : ∀ before r returned call after, history = before ++ .received r returned call :: after →
    call = ((unanswered before).find? fun w => w.1 = r.token).map fun w => (w.2, r.outcome)
  returned : ∀ r returned call, .received r returned call ∈ history →
    (returned = true ↔ call.isSome)
  refused : ∀ op callback c e result, .sent op (some callback) [(c, .error e)] result ∈ history →
    history.filterMap (Note.callUnder? c.token) = []

/-- What the responses that are dispatched in turn lead to. -/
def noted (c : Client κ) : List Response → List (Note κ)
  | [] => []
  | r :: rest => .received r (c.receive r).1 (c.dispatch r).1 :: (c.dispatch r).2.noted rest

/-- A client with its transport, the history and the calls so far. -/
structure Session (κ σ : Type) where
  client : Client κ
  state : σ
  history : List (Note κ)
  calls : List (Call κ)

namespace Session

/-- A new client at a transport. -/
def start (state : σ) : Session κ σ := ⟨.new, state, [], []⟩

/-- The session after a use of the client. -/
def use (t : Transport σ) (d : Session κ σ) : Use κ σ → Session κ σ
  | .send op callback =>
      let (result, client, state, handed) := d.client.send t.watched (d.state, []) op callback
      { d with client, state, history := d.history ++ [.sent op callback handed result] }
  | .receive r =>
      let (returned, call, client) := d.client.receive r
      { d with
        client
        history := d.history ++ [.received r returned call]
        calls := d.calls ++ call.toList }
  | .pump =>
      let (_, calls, client, state) := d.client.pump t d.state
      { client
        state
        history := d.history ++ d.client.noted (t.responses d.state)
        calls := d.calls ++ calls }
  | .outside state => { d with state }

/-- The session after uses in turn. -/
def run (t : Transport σ) (d : Session κ σ) (uses : List (Use κ σ)) : Session κ σ :=
  uses.foldl (use t) d

end Session

variable {history : List (Note κ)} {note : Note κ} {c : Client κ} {n : UInt64}

theorem findSome?_concat {α β : Type} (f : α → Option β) (l : List α) (a : α) :
    (l ++ [a]).findSome? f = (l.findSome? f).or (f a) := by
  rw [List.findSome?_append, List.findSome?_singleton]

theorem unanswered_concat_sent (hnote : ∀ n, note.answer? n = none) (history : List (Note κ)) :
    unanswered (history ++ [note]) = note.accepted?.toList ++ unanswered history := by
  induction history with
  | nil => cases h : note.accepted? <;> simp [unanswered, h]
  | cons first later ih =>
      rw [List.cons_append, unanswered, unanswered]
      cases first.accepted? with
      | none => exact ih
      | some w =>
          dsimp only
          rw [findSome?_concat, hnote, Option.or_none, ih, List.append_assoc]
          split <;> rfl

theorem unanswered_concat_received (r : Response) (returned : Bool) (call : Option (Call κ))
    (history : List (Note κ)) :
    unanswered (history ++ [.received r returned call]) =
      (unanswered history).filter fun w => w.1 ≠ r.token := by
  induction history with
  | nil => rfl
  | cons first later ih =>
      rw [List.cons_append, unanswered, unanswered]
      cases first.accepted? with
      | none => exact ih
      | some w =>
          dsimp only
          rw [findSome?_concat, ih, Note.answer?]
          cases later.findSome? (Note.answer? w.1) with
          | some o => rfl
          | none =>
              by_cases hw : w.1 = r.token
              · simp [hw]
              · simp [hw, Ne.symm hw]

theorem due_concat_sent (hnote : ∀ n, note.answer? n = none) (n : UInt64)
    (history : List (Note κ)) : due n (history ++ [note]) = due n history := by
  induction history with
  | nil => cases h : note.accepted? <;> simp [due, h]
  | cons first later ih =>
      rw [List.cons_append, due, due, findSome?_concat, hnote, Option.or_none, ih]

/-- The callback of the accepted command with a token. -/
def asker? (n : UInt64) : List (Note κ) → Option κ
  | [] => none
  | note :: later =>
      match note.accepted? with
      | none => asker? n later
      | some w => if w.1 = n then some w.2 else asker? n later

theorem due_concat_received (n : UInt64) (r : Response) (returned : Bool) (call : Option (Call κ))
    (history : List (Note κ)) :
    due n (history ++ [.received r returned call]) =
      if r.token = n then (due n history).or ((asker? n history).map (·, r.outcome))
      else due n history := by
  induction history with
  | nil => simp [due, asker?, Note.accepted?]
  | cons first later ih =>
      rw [List.cons_append, due, due, asker?]
      cases first.accepted? with
      | none => exact ih
      | some w =>
          dsimp only
          split
          · rw [findSome?_concat, Note.answer?]
            cases later.findSome? (Note.answer? n) with
            | some o => split <;> rfl
            | none => split <;> rfl
          · exact ih

/-- The tokens of the accepted commands. -/
def acceptedTokens (history : List (Note κ)) : List UInt64 :=
  (history.filterMap Note.accepted?).map Prod.fst

theorem acceptedTokens_cons (note : Note κ) (later : List (Note κ)) :
    acceptedTokens (note :: later) =
      (note.accepted?.map Prod.fst).toList ++ acceptedTokens later := by
  rw [acceptedTokens, List.filterMap_cons]
  cases note.accepted? <;> rfl

theorem mem_acceptedTokens_of_unanswered {w : UInt64 × κ} (hw : w ∈ unanswered history) :
    w.1 ∈ acceptedTokens history := by
  induction history with
  | nil => exact absurd hw List.not_mem_nil
  | cons note later ih =>
      rw [unanswered] at hw
      rw [acceptedTokens_cons]
      cases haccepted : note.accepted? with
      | none =>
          rw [haccepted] at hw
          exact ih hw
      | some v =>
          simp only [haccepted] at hw
          simp only [Option.map_some, Option.toList_some, List.singleton_append, List.mem_cons]
          split at hw
          · exact .inr (ih hw)
          · rcases List.mem_append.mp hw with hold | hnew
            · exact .inr (ih hold)
            · exact .inl (congrArg Prod.fst (List.mem_singleton.mp hnew))

theorem due_eq_none (hn : n ∉ acceptedTokens history) : due n history = none := by
  induction history with
  | nil => rfl
  | cons note later ih =>
      rw [acceptedTokens_cons, List.mem_append, not_or] at hn
      rw [due]
      cases haccepted : note.accepted? with
      | none => exact ih hn.2
      | some w =>
          rw [haccepted] at hn
          dsimp only
          rw [if_neg, ih hn.2]
          rintro rfl
          exact hn.1 (List.mem_singleton_self _)

/-- If no two accepted commands have the same token, a callback waits under a token as long as it
was not called. -/
theorem find?_unanswered (hnodup : (acceptedTokens history).Nodup) (n : UInt64) :
    ((unanswered history).find? fun w => w.1 = n).map Prod.snd =
      if (due n history).isSome then none else asker? n history := by
  induction history with
  | nil => rfl
  | cons note later ih =>
      rw [acceptedTokens_cons] at hnodup
      have hlater := ih hnodup.of_append_right
      rw [unanswered, due, asker?]
      cases haccepted : note.accepted? with
      | none => exact hlater
      | some w =>
          rw [haccepted] at hnodup
          have hw : w.1 ∉ acceptedTokens later := fun h =>
            (List.nodup_append.mp hnodup).2.2 _ (List.mem_singleton_self _) _ h rfl
          dsimp only
          by_cases hn : w.1 = n
          · subst hn
            have hnone : (unanswered later).find? (fun v => v.1 = w.1) = none := by
              rw [List.find?_eq_none]
              intro v hv hvw
              apply hw
              rw [← of_decide_eq_true hvw]
              exact mem_acceptedTokens_of_unanswered hv
            simp only [if_true]
            cases later.findSome? (Note.answer? w.1) with
            | some o => simp [hnone]
            | none => simp [hnone]
          · simp only [if_neg hn]
            rw [← hlater]
            split
            · rfl
            · simp [hn]

theorem concat_eq_append_cons {α : Type} {l before after : List α} {a b : α}
    (h : l ++ [a] = before ++ b :: after) :
    (l = before ∧ a = b) ∨ ∃ rest, l = before ++ b :: rest := by
  rcases List.eq_nil_or_concat after with rfl | ⟨rest, last, rfl⟩
  · obtain ⟨hl, hab⟩ := List.append_inj' h rfl
    exact .inl ⟨hl, List.singleton_inj.mp hab⟩
  · have hsplit : l ++ [a] = (before ++ b :: rest) ++ [last] := by simpa using h
    exact .inr ⟨rest, (List.append_inj' hsplit rfl).1⟩

theorem receive_returned (c : Client κ) (r : Response) :
    (c.receive r).1 = (c.dispatch r).1.isSome := by
  rw [dispatch, receive]
  split <;> rfl

theorem dispatch_call (c : Client κ) (r : Response) :
    (c.dispatch r).1 =
      (c.waiting.find? fun w => w.1 = r.token).map fun w => (w.2, r.outcome) := by
  rw [dispatch, receive]
  split <;> rename_i hfind <;> rw [hfind] <;> rfl

theorem waiting_dispatch (c : Client κ) (r : Response) :
    (c.dispatch r).2.waiting = c.waiting.filter fun w => w.1 ≠ r.token := by
  rw [dispatch, receive]
  split
  · rename_i hfind
    rw [List.find?_eq_none] at hfind
    refine (List.filter_eq_self.mpr fun w hw => ?_).symm
    simpa using hfind w hw
  · rfl

theorem nextToken_dispatch (c : Client κ) (r : Response) :
    (c.dispatch r).2.nextToken = c.nextToken := by
  rw [dispatch, receive]
  split <;> rfl

theorem handedTokens_concat (history : List (Note κ)) (note : Note κ) :
    handedTokens (history ++ [note]) = handedTokens history ++ note.tokens := by
  simp [handedTokens]

theorem send_of_ok {t : Transport σ} {s : σ} {op : Operation} {callback : κ} {v : Unit}
    (hsent : (t.send s ⟨c.nextToken, op⟩).1 = .ok v) :
    c.send t s op (some callback) =
      (.ok c.nextToken, (c.register callback).2, (t.send s ⟨c.nextToken, op⟩).2) := by
  rw [send]
  dsimp only [register]
  split <;> rename_i hcase <;> rw [hcase] at hsent ⊢
  contradiction

theorem send_of_error {t : Transport σ} {s : σ} {op : Operation} {callback : κ}
    {e : TransportError} (hsent : (t.send s ⟨c.nextToken, op⟩).1 = .error e) :
    c.send t s op (some callback) =
      (.error e, (c.register callback).2.without c.nextToken,
        (t.send s ⟨c.nextToken, op⟩).2) := by
  rw [send]
  dsimp only [register]
  split <;> rename_i hcase <;> rw [hcase] at hsent ⊢
  · rw [Except.error.inj hsent]
  · contradiction

/-- What a client hands over for an operation, and how the transport answers. -/
def handover (c : Client κ) (t : Transport σ) (s : σ) (op : Operation) (callback : Option κ) :
    Handover :=
  let command : Command := ⟨callback.elim noToken fun _ => c.nextToken, op⟩
  (command, (t.send s command).1)

theorem send_watched (c : Client κ) (t : Transport σ) (s : σ) (handed : List Handover)
    (op : Operation) (callback : Option κ) :
    c.send t.watched (s, handed) op callback =
      ((c.send t s op callback).1, (c.send t s op callback).2.1, (c.send t s op callback).2.2,
        handed ++ [c.handover t s op callback]) := by
  cases callback with
  | none => rfl
  | some callback =>
      cases hsent : (t.send s ⟨c.nextToken, op⟩).1 with
      | error e =>
          have hwatched : (t.watched.send (s, handed) ⟨c.nextToken, op⟩).1 = .error e := hsent
          rw [send_of_error hsent, send_of_error hwatched]
          rfl
      | ok v =>
          have hwatched : (t.watched.send (s, handed) ⟨c.nextToken, op⟩).1 = .ok v := hsent
          rw [send_of_ok hsent, send_of_ok hwatched]
          rfl

theorem ofNat_add_one (n : Nat) : UInt64.ofNat n + 1 = UInt64.ofNat (n + 1) :=
  (UInt64.ofNat_add n 1).symm

theorem pairwise_lt_ofNat {start count : Nat} (hbound : start + count ≤ UInt64.size) :
    ((List.range' start count).map UInt64.ofNat).Pairwise (· < ·) := by
  rw [List.pairwise_map]
  refine List.Pairwise.imp_of_mem ?_ List.pairwise_lt_range'
  intro i j hi hj hij
  rw [List.mem_range'_1] at hi hj
  rw [UInt64.lt_iff_toNat_lt, UInt64.toNat_ofNat_of_lt' (by omega),
    UInt64.toNat_ofNat_of_lt' (by omega)]
  exact hij

/-- The history of a client as the client knows it: tokens are numbered from one on, calls were made
when they were due, and the callbacks that wait are those without a response. -/
structure Tracks (history : List (Note κ)) (c : Client κ) : Prop where
  handed : ∀ op callback handed result, .sent op callback handed result ∈ history →
    ∃ n answer, handed = [(⟨n, op⟩, answer)] ∧ (n = noToken ↔ callback = none) ∧
      result = answer.map fun _ => n
  numbered : handedTokens history =
    (List.range' 1 (handedTokens history).length).map UInt64.ofNat
  next : c.nextToken = UInt64.ofNat ((handedTokens history).length + 1)
  called : ∀ n, history.filterMap (Note.callUnder? n) = (due n history).toList
  answered : ∀ before r returned call after, history = before ++ .received r returned call :: after →
    call = ((unanswered before).find? fun w => w.1 = r.token).map fun w => (w.2, r.outcome)
  returned : ∀ r returned call, .received r returned call ∈ history →
    (returned = true ↔ call.isSome)
  waiting : c.waiting = unanswered history

theorem tracks_new : Tracks [] (new : Client κ) where
  handed _ _ _ _ hnote := absurd hnote List.not_mem_nil
  numbered := rfl
  next := rfl
  called _ := rfl
  answered before r returned call after h := by simp at h
  returned _ _ _ hnote := absurd hnote List.not_mem_nil
  waiting := rfl

namespace Tracks

variable {c' : Client κ} {op : Operation} {callback : Option κ}
  {answer : Except TransportError Unit}

theorem concat_sent (h : Tracks history c) (hn : n = noToken ↔ callback = none)
    (htokens : (Note.sent op callback [(⟨n, op⟩, answer)] (answer.map fun _ => n)).tokens =
      (List.range' ((handedTokens history).length + 1) (callback.elim 0 fun _ => 1)).map
        UInt64.ofNat)
    (hnext : c'.nextToken = UInt64.ofNat ((handedTokens history).length +
      (callback.elim 0 fun _ => 1) + 1))
    (hwaiting : c'.waiting =
      (Note.sent op callback [(⟨n, op⟩, answer)] (answer.map fun _ => n)).accepted?.toList ++
        unanswered history) :
    Tracks (history ++ [.sent op callback [(⟨n, op⟩, answer)] (answer.map fun _ => n)]) c' := by
  have hlength : (Note.sent op callback [(⟨n, op⟩, answer)] (answer.map fun _ => n)).tokens.length =
      callback.elim 0 fun _ => 1 := by
    rw [htokens, List.length_map, List.length_range']
  constructor
  case handed =>
    intro op' callback' handed' result' hnote
    rcases List.mem_append.mp hnote with hold | hnew
    · exact h.handed op' callback' handed' result' hold
    · obtain ⟨rfl, rfl, rfl, rfl⟩ := Note.sent.inj (List.mem_singleton.mp hnew)
      exact ⟨n, answer, rfl, hn, rfl⟩
  case numbered =>
    rw [handedTokens_concat, List.length_append, ← List.range'_append_1, List.map_append,
      ← h.numbered, Nat.add_comm 1, hlength, ← htokens]
  case next => rw [handedTokens_concat, List.length_append, hlength, hnext]
  case called =>
    intro m
    rw [List.filterMap_append, h.called, due_concat_sent fun _ => rfl]
    exact List.append_nil _
  case answered =>
    intro before r returned call after hsplit
    rcases concat_eq_append_cons hsplit with ⟨-, hnote⟩ | ⟨rest, hold⟩
    · contradiction
    · exact h.answered before r returned call rest hold
  case returned =>
    intro r returned call hnote
    rcases List.mem_append.mp hnote with hold | hnew
    · exact h.returned r returned call hold
    · simp at hnew
  case waiting => exact hwaiting.trans (unanswered_concat_sent (fun _ => rfl) history).symm

theorem mem_tokens (h : Tracks history c) (hbound : (handedTokens history).length < UInt64.size)
    (hn : n ∈ handedTokens history) :
    1 ≤ n.toNat ∧ n.toNat ≤ (handedTokens history).length := by
  rw [h.numbered] at hn
  obtain ⟨i, hi, rfl⟩ := List.mem_map.mp hn
  rw [List.mem_range'_1] at hi
  rw [UInt64.toNat_ofNat_of_lt' (by omega)]
  omega

theorem increasing (h : Tracks history c)
    (hbound : (handedTokens history).length < UInt64.size) :
    (handedTokens history).Pairwise (· < ·) := by
  rw [h.numbered]
  exact pairwise_lt_ofNat (by omega)

theorem nodup_tokens (h : Tracks history c)
    (hbound : (handedTokens history).length < UInt64.size) : (handedTokens history).Nodup :=
  (h.increasing hbound).imp UInt64.ne_of_lt

theorem accepted (h : Tracks history c) {w : UInt64 × κ} (hnote : note ∈ history)
    (haccepted : note.accepted? = some w) :
    ∃ op v, note = .sent op (some w.2) [(⟨w.1, op⟩, .ok v)] (.ok w.1) := by
  cases note with
  | received r returned call => contradiction
  | sent op callback given result =>
      obtain ⟨n, answer, rfl, -, rfl⟩ := h.handed op callback given result hnote
      cases callback with
      | none => contradiction
      | some callback =>
          cases answer with
          | error e => contradiction
          | ok v =>
              cases haccepted
              exact ⟨op, v, rfl⟩

theorem acceptedTokens_sublist (h : Tracks history c) :
    (acceptedTokens history).Sublist (handedTokens history) := by
  have handed := h.handed
  clear h
  induction history with
  | nil => exact List.Sublist.refl _
  | cons note later ih =>
      rw [acceptedTokens_cons]
      refine List.Sublist.append ?_ (ih fun _ _ _ _ h => handed _ _ _ _ (List.mem_cons_of_mem _ h))
      cases note with
      | received r returned call => exact List.nil_sublist _
      | sent op callback given result =>
          obtain ⟨n, answer, rfl, -⟩ := handed op callback given result List.mem_cons_self
          cases callback with
          | none => exact List.nil_sublist _
          | some callback =>
              cases answer with
              | error e => exact List.nil_sublist _
              | ok v => exact List.Sublist.refl _

theorem next_notMem (h : Tracks history c)
    (hbound : (handedTokens history).length + 1 < UInt64.size) :
    c.nextToken ∉ handedTokens history := by
  intro hn
  have hle := (h.mem_tokens (by omega) hn).2
  rw [h.next, UInt64.toNat_ofNat_of_lt' hbound] at hle
  omega

theorem next_ne_noToken (h : Tracks history c)
    (hbound : (handedTokens history).length + 1 < UInt64.size) : c.nextToken ≠ noToken := by
  intro hn
  have hzero := congrArg UInt64.toNat hn
  rw [h.next, UInt64.toNat_ofNat_of_lt' hbound] at hzero
  exact Nat.succ_ne_zero _ hzero

/-- A refused send takes back what it registered, and nothing else. -/
theorem waiting_register_without (h : Tracks history c)
    (hbound : (handedTokens history).length + 1 < UInt64.size) (callback : κ) :
    ((c.register callback).2.without c.nextToken).waiting = c.waiting := by
  change ((c.nextToken, callback) :: c.waiting).filter (fun w => w.1 ≠ c.nextToken) = c.waiting
  rw [List.filter_cons_of_neg (by simp), List.filter_eq_self]
  intro w hw
  rw [h.waiting] at hw
  have hmem := h.acceptedTokens_sublist.subset (mem_acceptedTokens_of_unanswered hw)
  refine decide_eq_true fun heq => h.next_notMem hbound ?_
  rwa [← heq]

theorem send (h : Tracks history c) (t : Transport σ) (s : σ) (op : Operation)
    (callback : Option κ)
    (hbound : callback.isSome → (handedTokens history).length + 1 < UInt64.size) :
    Tracks (history ++ [.sent op callback [c.handover t s op callback] (c.send t s op callback).1])
      (c.send t s op callback).2.1 := by
  cases callback with
  | none => exact h.concat_sent (iff_of_true rfl rfl) rfl h.next h.waiting
  | some callback =>
      have hbound := hbound rfl
      have hnext : c.nextToken + 1 = UInt64.ofNat ((handedTokens history).length + 1 + 1) := by
        rw [h.next, ofNat_add_one]
      have htoken : [c.nextToken] =
          (List.range' ((handedTokens history).length + 1) 1).map UInt64.ofNat :=
        congrArg (fun n => [n]) h.next
      have hn : c.nextToken = noToken ↔ some callback = none :=
        iff_of_false (h.next_ne_noToken hbound) (Option.some_ne_none callback)
      have hhandover : c.handover t s op (some callback) =
          (⟨c.nextToken, op⟩, (t.send s ⟨c.nextToken, op⟩).1) := rfl
      rw [hhandover]
      cases hsent : (t.send s ⟨c.nextToken, op⟩).1 with
      | error e =>
          rw [send_of_error hsent]
          refine h.concat_sent hn htoken hnext ?_
          exact (h.waiting_register_without hbound callback).trans h.waiting
      | ok v =>
          rw [send_of_ok hsent]
          refine h.concat_sent hn htoken hnext ?_
          exact congrArg ((c.nextToken, callback) :: ·) h.waiting

/-- A response leads to a call if one is due now that was not before. -/
theorem receive (h : Tracks history c)
    (hbound : (handedTokens history).length < UInt64.size) (r : Response) :
    Tracks (history ++ [.received r (c.receive r).1 (c.dispatch r).1]) (c.dispatch r).2 where
  handed op callback handed result hnote := by
    rcases List.mem_append.mp hnote with hold | hnew
    · exact h.handed op callback handed result hold
    · simp at hnew
  numbered := by
    rw [handedTokens_concat]
    exact (List.append_nil _).symm ▸ h.numbered
  next := by
    rw [handedTokens_concat, nextToken_dispatch]
    exact (List.append_nil _).symm ▸ h.next
  called n := by
    have hnodup := (h.nodup_tokens hbound).sublist h.acceptedTokens_sublist
    have hfind := find?_unanswered hnodup r.token
    have hcall : (c.dispatch r).1 =
        (((unanswered history).find? fun w => w.1 = r.token).map Prod.snd).map (·, r.outcome) := by
      rw [dispatch_call, h.waiting, Option.map_map]
      rfl
    rw [List.filterMap_append, h.called, due_concat_received, hcall, hfind]
    by_cases hn : r.token = n
    · subst hn
      cases due r.token history <;> cases asker? r.token history <;> simp [Note.callUnder?]
    · simp [Note.callUnder?, hn]
  answered before r' returned call after hsplit := by
    rcases concat_eq_append_cons hsplit with ⟨rfl, hnote⟩ | ⟨rest, hold⟩
    · obtain ⟨rfl, -, rfl⟩ := Note.received.inj hnote
      rw [dispatch_call, h.waiting]
    · exact h.answered before r' returned call rest hold
  returned r' returned call hnote := by
    rcases List.mem_append.mp hnote with hold | hnew
    · exact h.returned r' returned call hold
    · obtain ⟨rfl, rfl, rfl⟩ := Note.received.inj (List.mem_singleton.mp hnew)
      rw [receive_returned]
  waiting := by
    rw [waiting_dispatch, h.waiting, unanswered_concat_received]

theorem receiveAll (h : Tracks history c)
    (hbound : (handedTokens history).length < UInt64.size) (responses : List Response) :
    Tracks (history ++ c.noted responses) (c.dispatchAll responses).2 := by
  induction responses generalizing history c with
  | nil => exact (List.append_nil history).symm ▸ h
  | cons r rest ih =>
      have hbound' : (handedTokens (history ++
          [.received r (c.receive r).1 (c.dispatch r).1])).length < UInt64.size := by
        rw [handedTokens_concat]
        exact (List.append_nil _).symm ▸ hbound
      rw [noted, List.append_cons]
      exact ih (h.receive hbound r) hbound'

/-- A refused command's callback is never called: its token is never used again. -/
theorem oneShot (h : Tracks history c) (hbound : (handedTokens history).length < UInt64.size) :
    OneShot history where
  handed := h.handed
  increasing := h.increasing hbound
  called := h.called
  answered := h.answered
  returned := h.returned
  refused op callback command e result hrefused := by
    rw [h.called, due_eq_none]
    · rfl
    · intro hn
      obtain ⟨w, hw, htoken⟩ := List.mem_map.mp hn
      obtain ⟨note, hnote, haccepted⟩ := List.mem_filterMap.mp hw
      obtain ⟨op', v, rfl⟩ := h.accepted hnote haccepted
      have hdisjoint := (List.nodup_flatMap.mp (h.nodup_tokens hbound)).2
      have hsymm : Std.Symm (Function.onFun List.Disjoint (Note.tokens (κ := κ))) :=
        ⟨fun _ _ hdisjoint n hn hn' => hdisjoint hn' hn⟩
      have hboth := hdisjoint.forall hrefused hnote (by simp)
      exact hboth (List.mem_singleton_self _) (htoken ▸ List.mem_singleton_self _)

end Tracks

theorem pump_eq (c : Client κ) (t : Transport σ) (s : σ) :
    (c.pump t s).2.1 = (c.dispatchAll (t.responses s)).1 ∧
      (c.pump t s).2.2.1 = (c.dispatchAll (t.responses s)).2 := by
  rw [pump, Transport.responses]
  split <;> rename_i hpoll <;> rw [hpoll] <;> exact ⟨rfl, rfl⟩

theorem dispatchAll_noted (c : Client κ) (responses : List Response) :
    (c.dispatchAll responses).1 = (c.noted responses).filterMap Note.call? := by
  induction responses generalizing c with
  | nil => rfl
  | cons r rest ih =>
      rw [dispatchAll, noted, List.filterMap_cons]
      dsimp only
      rw [ih]
      cases (c.dispatch r).1 <;> rfl

namespace Session

variable {t : Transport σ} {d : Session κ σ}

/-- What was noted says what is known and what was done. -/
structure Explained (d : Session κ σ) : Prop where
  tracks : Tracks d.history d.client
  calls : d.calls = d.history.filterMap Note.call?

theorem explained_start (state : σ) : (start state : Session κ σ).Explained := ⟨tracks_new, rfl⟩

theorem handedTokens_noted (c : Client κ) (responses : List Response) :
    handedTokens (c.noted responses) = [] := by
  induction responses generalizing c with
  | nil => rfl
  | cons r rest ih => exact ih (c.dispatch r).2

theorem length_handedTokens_use (d : Session κ σ) (t : Transport σ) (u : Use κ σ) :
    (handedTokens (d.use t u).history).length =
      (handedTokens d.history).length + if u.asks then 1 else 0 := by
  cases u with
  | send op callback =>
      rw [use, send_watched]
      dsimp only
      rw [handedTokens_concat, List.length_append]
      cases callback <;> rfl
  | receive r =>
      change (handedTokens (d.history ++ [_])).length = _
      rw [handedTokens_concat]
      exact congrArg List.length (List.append_nil _)
  | pump =>
      change (handedTokens (d.history ++ d.client.noted (t.responses d.state))).length = _
      rw [handedTokens, List.flatMap_append]
      change (handedTokens d.history ++ handedTokens (d.client.noted _)).length = _
      rw [handedTokens_noted]
      exact congrArg List.length (List.append_nil _)
  | outside state => rfl

theorem Explained.use (h : d.Explained) (t : Transport σ) (u : Use κ σ)
    (hbound : (handedTokens (d.use t u).history).length < UInt64.size) :
    (d.use t u).Explained := by
  rw [length_handedTokens_use] at hbound
  have hold : (handedTokens d.history).length < UInt64.size := by omega
  cases u with
  | send op callback =>
      have hsend : callback.isSome → (handedTokens d.history).length + 1 < UInt64.size := by
        intro hsome
        obtain ⟨callback, rfl⟩ := Option.isSome_iff_exists.mp hsome
        exact hbound
      rw [Session.use, send_watched]
      refine ⟨h.tracks.send t d.state op callback hsend, ?_⟩
      rw [List.filterMap_append, h.calls]
      exact (List.append_nil _).symm
  | receive r =>
      refine ⟨h.tracks.receive hold r, ?_⟩
      change d.calls ++ (d.client.dispatch r).1.toList =
        (d.history ++
          [Note.received r (d.client.receive r).1 (d.client.dispatch r).1]).filterMap Note.call?
      rw [List.filterMap_append, h.calls]
      cases (d.client.dispatch r).1 <;> rfl
  | pump =>
      obtain ⟨hcalls, hclient⟩ := pump_eq d.client t d.state
      constructor
      · change Tracks (d.history ++ _) (d.client.pump t d.state).2.2.1
        rw [hclient]
        exact h.tracks.receiveAll hold _
      · change d.calls ++ (d.client.pump t d.state).2.1 = (d.history ++ _).filterMap _
        rw [List.filterMap_append, h.calls, hcalls, dispatchAll_noted]
  | outside state => exact ⟨h.tracks, h.calls⟩

theorem length_handedTokens_run (d : Session κ σ) (t : Transport σ) (uses : List (Use κ σ)) :
    (handedTokens (d.run t uses).history).length =
      (handedTokens d.history).length + uses.countP Use.asks := by
  induction uses generalizing d with
  | nil => rfl
  | cons u uses ih =>
      rw [run, List.foldl_cons]
      refine (ih (d.use t u)).trans ?_
      rw [length_handedTokens_use, List.countP_cons]
      omega

theorem Explained.run (h : d.Explained) (t : Transport σ) {uses : List (Use κ σ)}
    (hbound : (handedTokens d.history).length + uses.countP Use.asks < UInt64.size) :
    (d.run t uses).Explained := by
  induction uses generalizing d with
  | nil => exact h
  | cons u uses ih =>
      rw [List.countP_cons] at hbound
      have huse := length_handedTokens_use d t u
      exact ih (h.use t u (by omega)) (by omega)

/-- With fewer than 2⁶⁴ commands that have a callback, whatever a transport does with them and
whatever is received, a client calls back once, when it is due: the tokens of these commands
increase, and the first response to one that the transport accepted leads to a call with its
outcome. No other response leads to a call, and the client says of each whether it did. The callbacks
that wait are those without a response, and nothing changes of them when the transport refuses a
command. -/
theorem run_oneShot (t : Transport σ) (state : σ) (uses : List (Use κ σ))
    (hbound : uses.countP Use.asks < UInt64.size) :
    let d := (start state).run t uses
    OneShot d.history ∧ d.calls = d.history.filterMap Note.call? ∧
      d.client.waiting = unanswered d.history ∧
      d.client.pending = (unanswered d.history).length ∧
      ∀ (s : σ) (op : Operation) (callback : Option κ) (c : Command) (e : TransportError),
        uses.countP Use.asks + 1 < UInt64.size →
        (d.client.send t.watched (s, []) op callback).2.2.2 = [(c, .error e)] →
        (d.client.send t s op callback).2.1.waiting = d.client.waiting := by
  intro d
  have hlength : (handedTokens d.history).length = uses.countP Use.asks :=
    (length_handedTokens_run (start state) t uses).trans (Nat.zero_add _)
  have hstart : (handedTokens (start state : Session κ σ).history).length +
      uses.countP Use.asks < UInt64.size := (Nat.zero_add _).symm ▸ hbound
  have h : d.Explained := (explained_start state).run t hstart
  rw [← hlength] at hbound ⊢
  refine ⟨h.tracks.oneShot hbound, h.calls, h.tracks.waiting,
    congrArg List.length h.tracks.waiting, ?_⟩
  intro s op callback command e hmore hrefused
  cases callback with
  | none => rfl
  | some callback =>
      rw [send_watched] at hrefused
      have hsent : (t.send s ⟨d.client.nextToken, op⟩).1 = .error e :=
        congrArg Prod.snd (List.singleton_inj.mp hrefused)
      rw [send_of_error hsent]
      exact h.tracks.waiting_register_without hmore callback

/-- Two commands are sent; the first is answered twice, and a token that no command has is answered
as well. A third one is refused. -/
theorem run_oneShot_answered :
    let answer (token : UInt64) : Use Nat Rehearsal := .receive ⟨token, .success .nothing⟩
    let uses := [.send .fluidReset (some 5), .send .fluidReset (some 6), answer 1, answer 1,
      answer 7, .send .fluidReset none, .outside ⟨[], [], true⟩, .send .fluidReset (some 8)]
    let d := (start Rehearsal.fresh).run Transport.rehearsed uses
    uses.countP Use.asks < UInt64.size ∧ OneShot d.history ∧
      d.calls = [(5, .success .nothing)] ∧ d.client.pending = 1 :=
  ⟨by decide, (run_oneShot .rehearsed .fresh _ (by decide)).1, by decide +kernel,
    by decide +kernel⟩

end Session

end Client

end Terrarium
