import Terrarium.Proofs.DelimitedItems
import Terrarium.Proofs.StreamRoundTrip

namespace Terrarium

open Cbor

namespace Cbor.Delimited

variable {α : Type} {least : Nat} {read : List UInt8 → Reading α} {s : List UInt8} {a : α}

theorem append (h : Delimited least read) {rest : List UInt8} (hs : read s = some (a, rest))
    (more : List UInt8) : read (s ++ more) = some (a, rest ++ more) := by
  obtain ⟨front, rfl, -, hfront⟩ := h hs
  rw [List.append_assoc]
  exact hfront (rest ++ more)

/-- Bytes that are read to their end are not read if the last of them are missing. -/
theorem eq_none_of_cut (h : Delimited least read) {cut : List UInt8} (hcut : cut ≠ [])
    (hwhole : read (s ++ cut) = some (a, [])) : read s = none := by
  cases hs : read s with
  | none => rfl
  | some r =>
      rw [h.append hs cut, Option.some.injEq, Prod.mk.injEq, List.append_eq_nil_iff] at hwhole
      exact absurd hwhole.2.2 hcut

end Cbor.Delimited

namespace Operation

theorem kind_eq (s : List UInt8) : kind s =
    (readName s).bind fun r => (r.1.filter (· ∈ kinds)).map fun n => (n, r.2) := by
  unfold kind
  rcases readName s with - | ⟨- | n, rest⟩
  · rfl
  · rfl
  · by_cases hn : n ∈ kinds <;> simp [Option.filter, hn]

theorem delimited_kind : Delimited 1 kind :=
  delimited_readName.bind (fun name => .ofOption (name.filter (· ∈ kinds))) kind_eq

theorem delimited_entry (depth : Nat) (state : Option String × Array (Datum × Datum)) :
    Delimited 1 (entry depth state) := by
  refine (Datum.delimited_read depth).bind (g := fun key s =>
    if key.isName kindKey then (fill state.1 kind s).map fun r => ((r.1, state.2), r.2)
    else (Datum.read depth s).map fun r => ((state.1, state.2.push (key, r.1)), r.2))
    (fun key => .ite ?_ ?_) fun s => ?_
  · exact ((delimited_fill delimited_kind state.1).map fun k => (k, state.2)).weaken
  · exact ((Datum.delimited_read depth).map fun d => (state.1, state.2.push (key, d))).weaken
  · rw [entry]
    cases Datum.read depth s <;> rfl

theorem delimited_element (depth : Nat) (state : Option String × Array Datum) :
    Delimited 1 (element depth state) := by
  obtain ⟨- | k, held⟩ := state
  · exact delimited_kind.map fun k => (some k, held)
  · exact (Datum.delimited_read depth).map fun d => (some k, held.push d)

/-- The operation that is made of what was read of its record. -/
def made? {α : Type} (datum : List α → Datum) (state : Option String × Array α) :
    Option Operation :=
  state.1.bind fun k => ofDatum? k (datum state.2.toList)

def readAfter (depth : Nat) (head : Head) (s : List UInt8) : Reading Operation :=
  match head with
  | .map length => (elements (entry depth) length (none, #[]) s).bind fun r =>
      (made? Datum.map r.1).map fun op => (op, r.2)
  | .array length => (elements (element depth) length (none, #[]) s).bind fun r =>
      (made? Datum.array r.1).map fun op => (op, r.2)
  | _ => none

theorem read_eq (depth : Nat) (s : List UInt8) :
    read (depth + 1) s = (pull s).bind fun r => readAfter depth r.1 r.2 := by
  unfold read
  rcases pull s with - | ⟨head, rest⟩
  · rfl
  cases head with
  | map length =>
      simp only [Option.bind_some, readAfter]
      rcases elements (entry depth) length (none, #[]) rest with - | ⟨⟨- | k, held⟩, rest⟩ <;> rfl
  | array length =>
      simp only [Option.bind_some, readAfter]
      rcases elements (element depth) length (none, #[]) rest with - | ⟨⟨- | k, held⟩, rest⟩ <;> rfl
  | _ => rfl

theorem delimited_read (depth : Nat) : Delimited 1 (read depth) := by
  cases depth with
  | zero => exact .fail
  | succ depth =>
      refine delimited_pull.bind (fun head => ?_) (read_eq depth)
      cases head with
      | map length =>
          exact (delimited_elements (delimited_entry depth) length _).bind
            (fun state => .ofOption (made? Datum.map state)) fun _ => rfl
      | array length =>
          exact (delimited_elements (delimited_element depth) length _).bind
            (fun state => .ofOption (made? Datum.array state)) fun _ => rfl
      | _ => exact .fail

end Operation

theorem ObjectId.delimited_read : Delimited 1 ObjectId.read := delimited_readWord.map ObjectId.mk

namespace Rect

theorem delimited_entry (depth : Nat) (key : Option String) (f : Found) :
    Delimited 0 (entry depth key f) := by
  have hbound (slot : Option UInt32) := (delimited_fill delimited_readWord32 slot).weaken
  unfold entry
  split
  · exact (hbound f.x0).map fun v => { f with x0 := v }
  · exact (hbound f.y0).map fun v => { f with y0 := v }
  · exact (hbound f.x1).map fun v => { f with x1 := v }
  · exact (hbound f.y1).map fun v => { f with y1 := v }
  · exact (delimited_ignore depth f).weaken

/-- The rectangle of the bounds that are found, if all are. -/
def Found.rect? (f : Found) : Option Rect := do
  return ⟨← f.x0, ← f.y0, ← f.x1, ← f.y1⟩

theorem delimited_read (depth : Nat) : Delimited 1 (read depth) := by
  refine (delimited_record delimited_entry depth ⟨none, none, none, none⟩).bind
    (g := fun f s => f.rect?.map fun r => (r, s)) (fun f => .ofOption f.rect?) fun s => ?_
  unfold read
  rcases record depth entry _ s with - | ⟨⟨- | x0, - | y0, - | x1, - | y1⟩, rest⟩ <;> rfl

end Rect

theorem Delta.delimited_read (depth : Nat) : Delimited 1 (Delta.read depth) := by
  refine delimited_choice (fun depth name => ?_) depth
  split
  · exact .pure _
  · exact ((Rect.delimited_read depth).map Delta.terrain).weaken
  · exact ((Rect.delimited_read depth).map Delta.fluid).weaken
  · exact (ObjectId.delimited_read.map Delta.created).weaken
  · exact (ObjectId.delimited_read.map Delta.updated).weaken
  · exact (ObjectId.delimited_read.map Delta.destroyed).weaken
  · exact .fail

theorem Failure.delimited_read (depth : Nat) : Delimited 1 (Failure.read depth) := by
  refine delimited_choice (fun depth name => ?_) depth
  split
  · exact (ObjectId.delimited_read.map Failure.noSuchObject).weaken
  · exact (delimited_readText.map Failure.invalidArgument).weaken
  · exact .pure _
  · exact .fail

theorem Outcome.delimited_read (depth : Nat) : Delimited 1 (Outcome.read depth) := by
  refine delimited_choice (fun depth name => ?_) depth
  split
  · exact ((Delta.delimited_read depth).map Outcome.success).weaken
  · exact ((Failure.delimited_read depth).map Outcome.failure).weaken
  · exact .fail

namespace LinkSignal

theorem delimited_entry (depth : Nat) (key : Option String) (n : Option UInt64) :
    Delimited 0 (entry depth key n) := by
  unfold entry
  split
  · exact (delimited_fill delimited_readWord n).weaken
  · exact (delimited_ignore depth n).weaken

theorem delimited_seq (depth : Nat) : Delimited 1 (seq depth) := by
  cases depth with
  | zero => exact .fail
  | succ depth =>
      -- A map without tags in front of it is read as a record.
      have hrecord {s rest : List UInt8} {length : Option Nat}
          (hs : pull s = some (.map length, rest)) :
          record (depth + 1) entry none s =
            elements (namedStep (entry depth)) length none rest := by
        rw [record, mapHead, pullUntagged, pullPast_of_pull hs fun _ h => by cases h]
        rfl
      refine delimited_pull.bind (g := fun head s =>
        match head with
        | .map length =>
            (elements (namedStep (entry depth)) length none s).bind fun r =>
              r.1.map fun n => (n, r.2)
        | .array length => if length = some 0 then none else readWord s
        | _ => none) (fun head => ?_) fun s => ?_
      · cases head with
        | map length =>
            have hstep := delimited_namedStep (delimited_entry depth)
            exact (delimited_elements hstep length none).bind (fun n => .ofOption n) fun _ => rfl
        | array length => exact .ite .fail delimited_readWord.weaken
        | _ => exact .fail
      · unfold seq
        rcases hs : pull s with - | ⟨head, rest⟩
        · rfl
        cases head with
        | map length =>
            simp only [hrecord hs, Option.bind_some]
            rcases elements (namedStep (entry depth)) length none rest with - | ⟨- | n, rest⟩ <;> rfl
        | _ => rfl

theorem delimited_read (depth : Nat) : Delimited 1 (read depth) := by
  refine delimited_choice (fun depth name => ?_) depth
  split
  · exact ((delimited_seq depth).map ping).weaken
  · exact ((delimited_seq depth).map pong).weaken
  · exact .fail

end LinkSignal

namespace Command

theorem delimited_entry (depth : Nat) (key : Option String)
    (f : Option UInt64 × Option Operation) : Delimited 0 (entry depth key f) := by
  unfold entry
  split
  · exact ((delimited_fill delimited_readWord f.1).map fun v => (v, f.2)).weaken
  · exact ((delimited_fill (Operation.delimited_read depth) f.2).map fun v => (f.1, v)).weaken
  · exact (delimited_ignore depth f).weaken

theorem delimited_read (depth : Nat) : Delimited 1 (read depth) := by
  refine (delimited_record delimited_entry depth (none, none)).bind (g := fun f s =>
    (f.1.bind fun token => f.2.map fun op => Command.mk token op).map fun c => (c, s))
    (fun f => .ofOption _) fun s => ?_
  unfold read
  rcases record depth entry _ s with - | ⟨⟨- | token, - | op⟩, rest⟩ <;> rfl

end Command

namespace Response

theorem delimited_entry (depth : Nat) (key : Option String)
    (f : Option UInt64 × Option Outcome) : Delimited 0 (entry depth key f) := by
  unfold entry
  split
  · exact ((delimited_fill delimited_readWord f.1).map fun v => (v, f.2)).weaken
  · exact ((delimited_fill (Outcome.delimited_read depth) f.2).map fun v => (f.1, v)).weaken
  · exact (delimited_ignore depth f).weaken

theorem delimited_read (depth : Nat) : Delimited 1 (read depth) := by
  refine (delimited_record delimited_entry depth (none, none)).bind (g := fun f s =>
    (f.1.bind fun token => f.2.map fun o => Response.mk token o).map fun r => (r, s))
    (fun f => .ofOption _) fun s => ?_
  unfold read
  rcases record depth entry _ s with - | ⟨⟨- | token, - | o⟩, rest⟩ <;> rfl

end Response

namespace Message

/-- Reads a message of a class, with the bytes left over. -/
def read : MessageClass → List UInt8 → Reading Message
  | .link, s => (LinkSignal.read nestingLimit s).map fun (l, rest) => (link l, rest)
  | .command, s => (Command.read nestingLimit s).map fun (c, rest) => (command c, rest)
  | .response, s => (Response.read nestingLimit s).map fun (r, rest) => (response r, rest)

theorem ofPayload?_eq (c : MessageClass) (s : List UInt8) :
    ofPayload? c s = (read c s).map Prod.fst := by
  cases c <;> rw [read, Option.map_map] <;> rfl

theorem delimited_read (c : MessageClass) : Delimited 1 (read c) := by
  cases c with
  | link => exact (LinkSignal.delimited_read nestingLimit).map link
  | command => exact (Command.delimited_read nestingLimit).map command
  | response => exact (Response.delimited_read nestingLimit).map response

theorem restores (m : Message) : Restores (read m.class) m.payload m := by
  cases m with
  | link l => exact (l.restores 254).map link
  | command c => exact (c.restores 252).map command
  | response r => exact (r.restores 252).map response

/-- Bytes that are read as a message are read as the same message whatever comes after them. The
payload of a message that has a frame is no message of its class when it is cut off anywhere. -/
theorem payload_delimited :
    (∀ c s m, ofPayload? c s = some m → ∀ more, ofPayload? c (s ++ more) = some m) ∧
    ∀ (m : Message) (bytes : List UInt8), m.frame = .ok bytes →
      ∀ s, s <+: m.payload → s ≠ m.payload → ofPayload? m.class s = none := by
  constructor
  · intro c s m hs more
    rw [ofPayload?_eq, Option.map_eq_some_iff] at hs
    obtain ⟨⟨m, rest⟩, hread, rfl⟩ := hs
    rw [ofPayload?_eq, (delimited_read c).append hread]
    rfl
  · rintro m bytes hframe s ⟨cut, hpayload⟩ hs
    have hfits : m.payload.length ≤ Frame.maxPayload := by
      by_contra hlarge
      rw [frame_of_lt (Nat.lt_of_not_le hlarge)] at hframe
      cases hframe
    have hwhole := m.restores (Nat.lt_of_le_of_lt hfits (by decide)) []
    rw [List.append_nil, ← hpayload] at hwhole
    have hcut : cut ≠ [] := by
      rintro rfl
      exact hs (by rw [← hpayload, List.append_nil])
    rw [ofPayload?_eq, (delimited_read m.class).eq_none_of_cut hcut hwhole]
    rfl

/-- A response whose map is left open and holds an array under a key that means nothing, with bytes
behind it, and a command that lacks the last byte of its brush. -/
theorem payload_delimited_open :
    let response : List UInt8 :=
      0xbf :: (writeText "note" ++ [0x9f, 1, 0xff] ++ writeText "token" ++ [9] ++
        writeText "result" ++ writeChoice "Success" (writeText "None") ++ [0xff])
    let raise : Message := .command ⟨5, .terraformRaise ⟨1, 1, 1, #[0.5], 0.1⟩⟩
    ofPayload? .response response = some (.response ⟨9, .success .nothing⟩) ∧
      ofPayload? .response (response ++ [0xff, 0xff]) = some (.response ⟨9, .success .nothing⟩) ∧
      raise.payload.dropLast ≠ [] ∧ ofPayload? .command raise.payload.dropLast = none := by
  intro response raise
  obtain ⟨hbehind, hcut⟩ := payload_delimited
  have hread : ofPayload? .response response = some (.response ⟨9, .success .nothing⟩) := by
    decide +kernel
  have hframe : raise.frame = .ok (Frame.header .command raise.payload.length ++ raise.payload) := by
    decide +kernel
  have hshort : raise.payload.dropLast ≠ raise.payload := by decide +kernel
  exact ⟨hread, hbehind .response response _ hread [0xff, 0xff], by decide +kernel,
    hcut raise _ hframe _ (List.dropLast_prefix _) hshort⟩

end Message

end Terrarium
