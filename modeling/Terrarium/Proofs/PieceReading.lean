import Terrarium.Frame.Assembler

namespace Terrarium

namespace Frame

/-- How the reading of a whole stream ends: in a header or payload that needs more bytes, or with an
error in one, after which so many bytes follow. -/
inductive Ending where
  | waiting (needed : Nat)
  | failed (e : WireError) (rest : List UInt8)
deriving DecidableEq, Repr

/-- Reads a whole stream: headers, each with the payload it announces. The class is the first number
of a header and is checked first, the size is the second. -/
def readAll (s : List UInt8) : List Message × Ending :=
  if s.length < headerSize then ([], .waiting (headerSize - s.length))
  else
    let raw := ofLittleEndian (s.take 4)
    let size := ofLittleEndian ((s.drop 4).take 4)
    let body := s.drop headerSize
    match [MessageClass.link, MessageClass.command, MessageClass.response][raw]? with
    | none => ([], .failed (.unknownClass (UInt32.ofNat raw)) body)
    | some c =>
        if maxPayload < size then ([], .failed (.tooLarge size) body)
        else if body.length < size then ([], .waiting (size - body.length))
        else
          match Message.ofPayload? c (body.take size) with
          | none => ([], .failed .malformed (body.drop size))
          | some m =>
              let (messages, ending) := readAll (body.drop size)
              (m :: messages, ending)
termination_by s.length
decreasing_by
  simp only [List.length_drop, headerSize] at *
  omega

/-- Reads a stream that begins with a payload. -/
def readBody (c : MessageClass) (size : Nat) (body : List UInt8) : List Message × Ending :=
  if body.length < size then ([], .waiting (size - body.length))
  else
    match readPayload c (body.take size) with
    | .error e => ([], .failed e (body.drop size))
    | .ok m => (m :: (readAll (body.drop size)).1, (readAll (body.drop size)).2)

theorem ofLittleEndian_lt (s : List UInt8) : ofLittleEndian s < Nat.pow 256 s.length := by
  induction s with
  | nil => exact Nat.one_pos
  | cons b s ih =>
      have hb : b.toNat < 256 := b.toNat_lt
      calc ofLittleEndian (b :: s) = b.toNat + 256 * ofLittleEndian s := rfl
        _ < 256 * (ofLittleEndian s + 1) := by omega
        _ ≤ 256 * Nat.pow 256 s.length := Nat.mul_le_mul_left 256 ih
        _ = Nat.pow 256 (b :: s).length := Nat.mul_comm 256 (Nat.pow 256 s.length)

theorem ofCode?_ofNat {raw : Nat} (hraw : raw < UInt32.size) :
    MessageClass.ofCode? (UInt32.ofNat raw) =
      [MessageClass.link, MessageClass.command, MessageClass.response][raw]? := by
  match raw with
  | 0 => rfl
  | 1 => rfl
  | 2 => rfl
  | raw + 3 =>
      have hne (k : UInt32) (hk : k.toNat < 3) : UInt32.ofNat (raw + 3) ≠ k := by
        intro h
        have hnat := congrArg UInt32.toNat h
        rw [UInt32.toNat_ofNat_of_lt' hraw] at hnat
        omega
      rw [MessageClass.ofCode?, if_neg (hne 0 (by decide)), if_neg (hne 1 (by decide)),
        if_neg (hne 2 (by decide))]
      rfl

theorem readAll_of_short {s : List UInt8} (h : s.length < headerSize) :
    readAll s = ([], .waiting (headerSize - s.length)) := by
  rw [readAll, if_pos h]

theorem readAll_append {head : List UInt8} (hhead : head.length = headerSize) (body : List UInt8) :
    readAll (head ++ body) =
      match readHeader head with
      | .error e => ([], .failed e body)
      | .ok (c, size) => readBody c size body := by
  have hlong : ¬ (head ++ body).length < headerSize := by
    rw [List.length_append, hhead]
    omega
  have hraw : (head ++ body).take 4 = head.take 4 :=
    List.take_append_of_le_length (by rw [hhead]; decide)
  have hsize : ((head ++ body).drop 4).take 4 = (head.drop 4).take 4 := by
    rw [List.drop_append_of_le_length (by rw [hhead]; decide)]
    exact List.take_append_of_le_length (by rw [List.length_drop, hhead]; decide)
  have hbody : (head ++ body).drop headerSize = body := by
    rw [← hhead, List.drop_left]
  have hlt : ofLittleEndian (head.take 4) < UInt32.size := by
    have h := ofLittleEndian_lt (head.take 4)
    rwa [List.length_take, hhead] at h
  rw [readAll, if_neg hlong, hraw, hsize, hbody, readHeader, ofCode?_ofNat hlt]
  dsimp only
  cases [MessageClass.link, MessageClass.command, MessageClass.response][ofLittleEndian
      (head.take 4)]? with
  | none => rfl
  | some c =>
      dsimp only
      split
      · rfl
      · dsimp only
        rw [readBody, readPayload]
        split
        · rfl
        · cases Message.ofPayload? c (body.take (ofLittleEndian ((head.drop 4).take 4))) <;> rfl

end Frame

namespace Assembler

/-- What an assembler holds is not complete. -/
def Unfinished (a : Assembler) : Prop := a.held.size < a.stage.size

/-- Reads a whole stream after what an assembler holds. -/
def readAll (a : Assembler) (s : List UInt8) : List Message × Frame.Ending :=
  match a.stage with
  | .header => Frame.readAll (a.held.toList ++ s)
  | .payload c size => Frame.readBody c size (a.held.toList ++ s)

theorem unfinished_fresh : fresh.Unfinished := Nat.zero_lt_succ 7

theorem readAll_fresh (s : List UInt8) : fresh.readAll s = Frame.readAll s := rfl

theorem readAll_nil {a : Assembler} (ha : a.Unfinished) : a.readAll [] = ([], .waiting a.pending) := by
  obtain ⟨stage, held⟩ := a
  cases stage with
  | header =>
      have hshort : held.toList.length < Frame.headerSize := ha
      rw [readAll, List.append_nil, Frame.readAll_of_short hshort]
      rfl
  | payload c size =>
      have hshort : held.toList.length < size := ha
      change Frame.readBody c size (held.toList ++ []) = _
      rw [List.append_nil, Frame.readBody, if_pos hshort]
      rfl

theorem readBody_append {c : MessageClass} {body : List UInt8} {size : Nat}
    (hbody : body.length = size) (s : List UInt8) :
    Frame.readBody c size (body ++ s) =
      match Frame.readPayload c body with
      | .error e => ([], .failed e s)
      | .ok m => (m :: (Frame.readAll s).1, (Frame.readAll s).2) := by
  have hlong : ¬ (body ++ s).length < size := by
    rw [List.length_append, hbody]
    omega
  rw [Frame.readBody, if_neg hlong, ← hbody, List.take_left, List.drop_left]

theorem readAll_complete {stage : Stage} {bytes : List UInt8} (hbytes : bytes.length = stage.size)
    (s : List UInt8) :
    match complete stage bytes with
    | .error e => readAll ⟨stage, bytes.toArray⟩ s = ([], .failed e s)
    | .ok (found, a) => a.Unfinished ∧
        readAll ⟨stage, bytes.toArray⟩ s = (found.toList ++ (a.readAll s).1, (a.readAll s).2) := by
  cases stage with
  | header =>
      have hread : readAll ⟨.header, bytes.toArray⟩ s = _ := Frame.readAll_append hbytes s
      rw [hread]
      cases hheader : Frame.readHeader bytes with
      | error e => simp only [complete, hheader]
      | ok announced =>
          obtain ⟨c, size⟩ := announced
          cases size with
          | zero =>
              have hbody : Frame.readBody c 0 s = _ := @readBody_append c [] 0 rfl s
              simp only [complete, hheader, hbody]
              cases Frame.readPayload c [] with
              | error e => rfl
              | ok m => exact ⟨unfinished_fresh, rfl⟩
          | succ size =>
              simp only [complete, hheader]
              exact ⟨Nat.succ_pos size, rfl⟩
  | payload c size =>
      have hbody : readAll ⟨.payload c size, bytes.toArray⟩ s = _ :=
        @readBody_append c bytes size hbytes s
      simp only [complete, hbody]
      cases Frame.readPayload c bytes with
      | error e => rfl
      | ok m => exact ⟨unfinished_fresh, rfl⟩

/-- What one byte contributes to the reading of a stream. -/
theorem readAll_push {a : Assembler} (ha : a.Unfinished) (b : UInt8) (s : List UInt8) :
    match a.push b with
    | .error e => a.readAll (b :: s) = ([], .failed e s)
    | .ok (found, a') => a'.Unfinished ∧
        a.readAll (b :: s) = (found.toList ++ (a'.readAll s).1, (a'.readAll s).2) := by
  obtain ⟨stage, held⟩ := a
  have hlength : (held.push b).toList.length = held.size + 1 := by
    rw [Array.length_toList, Array.size_push]
  have hmove : readAll ⟨stage, held⟩ (b :: s) = readAll ⟨stage, (held.push b).toList.toArray⟩ s := by
    have hstream : held.toList ++ b :: s = (held.push b).toList ++ s := by
      rw [Array.toList_push, List.append_assoc, List.singleton_append]
    cases stage <;> simp only [readAll, hstream]
  rw [hmove, push]
  by_cases hmore : (held.push b).size < stage.size
  · simp only [if_pos hmore]
    exact ⟨hmore, rfl⟩
  · simp only [if_neg hmore]
    have hfull : (held.push b).toList.length = stage.size := by
      have hheld : held.size < stage.size := ha
      rw [Array.size_push] at hmore
      omega
    exact readAll_complete hfull s

theorem feedAfter_cons (found : Array Message) (a : Assembler) (b : UInt8) (piece : List UInt8) :
    a.feedAfter found (b :: piece) =
      match a.push b with
      | .error e => (.error e, fresh)
      | .ok (first, a) => a.feedAfter (first.elim found found.push) piece := by
  rw [feedAfter]
  rcases a.push b with e | ⟨_ | m, a⟩ <;> rfl

/-- What one piece contributes to the reading of a stream: messages, or an error at one of its
bytes. -/
theorem readAll_piece {a : Assembler} (ha : a.Unfinished) (piece s : List UInt8) (found : Array Message) :
    (∃ messages a', a.feedAfter found piece = (.ok (found.toList ++ messages), a') ∧
      a'.Unfinished ∧
      a.readAll (piece ++ s) = (messages ++ (a'.readAll s).1, (a'.readAll s).2)) ∨
    (∃ e messages front back, a.feedAfter found piece = (.error e, fresh) ∧
      piece = front ++ back ∧ front ≠ [] ∧
      a.readAll (piece ++ s) = (messages, .failed e (back ++ s))) := by
  -- The stream after the piece stays fixed: only what is held and what was found vary.
  induction piece generalizing a found with
  | nil =>
      refine Or.inl ⟨[], a, ?_, ha, rfl⟩
      rw [feedAfter, List.append_nil]
  | cons b piece ih =>
      have hbyte := readAll_push ha b (piece ++ s)
      rw [feedAfter_cons, List.cons_append]
      cases hpush : a.push b with
      | error e =>
          simp only [hpush] at hbyte
          exact Or.inr ⟨e, [], [b], piece, rfl, rfl, List.cons_ne_nil b [], hbyte⟩
      | ok step =>
          obtain ⟨first, a₁⟩ := step
          simp only [hpush] at hbyte
          obtain ⟨ha₁, hread⟩ := hbyte
          have hfound : (first.elim found found.push).toList = found.toList ++ first.toList := by
            cases first with
            | none => exact (List.append_nil _).symm
            | some m => exact Array.toList_push
          dsimp only
          rcases ih ha₁ (first.elim found found.push) with
            ⟨messages, a₂, hfeed, ha₂, hrest⟩ | ⟨e, messages, front, back, hfeed, hsplit, -, hrest⟩
          · refine Or.inl ⟨first.toList ++ messages, a₂, ?_, ha₂, ?_⟩
            · rw [hfeed, hfound, List.append_assoc]
            · rw [hread, hrest, List.append_assoc]
          · refine Or.inr ⟨e, first.toList ++ messages, b :: front, back, hfeed, ?_,
              List.cons_ne_nil b front, ?_⟩
            · rw [hsplit, List.cons_append]
            · rw [hread, hrest]

theorem readAll_feed {a : Assembler} (ha : a.Unfinished) (piece s : List UInt8) :
    (∃ messages a', a.feed piece = (.ok messages, a') ∧ a'.Unfinished ∧
      a.readAll (piece ++ s) = (messages ++ (a'.readAll s).1, (a'.readAll s).2)) ∨
    (∃ e messages front back, a.feed piece = (.error e, fresh) ∧
      piece = front ++ back ∧ front ≠ [] ∧
      a.readAll (piece ++ s) = (messages, .failed e (back ++ s))) :=
  readAll_piece ha piece s #[]

/-- Takes pieces one after the other, and gives what each of them makes. -/
def feeds (a : Assembler) :
    List (List UInt8) → List (Except WireError (List Message)) × Assembler
  | [] => ([], a)
  | piece :: pieces =>
      (((a.feed piece).1 :: ((a.feed piece).2.feeds pieces).1), ((a.feed piece).2.feeds pieces).2)

/-- What the pieces of a stream make, given how the reading of the whole stream goes. -/
def Makes (a : Assembler) (pieces : List (List UInt8)) : List Message × Frame.Ending → Prop
  | (messages, .waiting needed) =>
      ∃ (found : List (List Message)) (a' : Assembler), a.feeds pieces = (found.map .ok, a') ∧ found.flatten = messages ∧
        a'.pending = needed
  | (messages, .failed e rest) =>
      ∃ (before : List (List UInt8)) (front back : List UInt8) (after : List (List UInt8))
        (found : List (List Message)) (a' : Assembler),
        pieces = before ++ (front ++ back) :: after ∧ front ≠ [] ∧
        rest = back ++ after.flatten ∧
        a.feeds before = (found.map .ok, a') ∧ found.flatten <+: messages ∧
        a'.feed (front ++ back) = (.error e, fresh)

theorem makes_readAll {a : Assembler} (ha : a.Unfinished) (pieces : List (List UInt8)) :
    a.Makes pieces (a.readAll pieces.flatten) := by
  induction pieces generalizing a with
  | nil =>
      rw [List.flatten_nil, readAll_nil ha]
      exact ⟨[], a, rfl, rfl, rfl⟩
  | cons piece pieces ih =>
      rw [List.flatten_cons]
      rcases readAll_feed ha piece pieces.flatten with
        ⟨messages, a₁, hfeed, ha₁, hread⟩ | ⟨e, messages, front, back, hfeed, rfl, hfront, hread⟩
      · have hrest := ih ha₁
        rw [hread]
        rcases hreads : a₁.readAll pieces.flatten with ⟨later, needed | ⟨e, rest⟩⟩
        · rw [hreads] at hrest
          obtain ⟨found, a₂, hfeeds, hfound, hneeded⟩ := hrest
          refine ⟨messages :: found, a₂, ?_, ?_, hneeded⟩
          · simp only [feeds, hfeed, hfeeds, List.map_cons]
          · rw [List.flatten_cons, hfound]
        · rw [hreads] at hrest
          obtain ⟨before, front, back, after, found, a₂, hpieces, hfront, hafter, hfeeds, hfound,
            herror⟩ := hrest
          refine ⟨piece :: before, front, back, after, messages :: found, a₂, ?_, hfront, hafter,
            ?_, ?_, herror⟩
          · rw [hpieces, List.cons_append]
          · simp only [feeds, hfeed, hfeeds, List.map_cons]
          · rw [List.flatten_cons]
            exact (List.prefix_append_right_inj messages).mpr hfound
      · rw [hread]
        exact ⟨[], front, back, pieces, [], a, rfl, hfront, rfl, rfl, List.nil_prefix, hfeed⟩

/-- However a stream is cut into pieces, a fresh assembler makes of them what the reading of the
whole stream gives. Where that ends with an error, the call for the piece in which the offending
header or payload becomes complete is the first one that fails, and leaves a fresh assembler. -/
theorem fresh_makes_readAll (pieces : List (List UInt8)) :
    fresh.Makes pieces (Frame.readAll pieces.flatten) := by
  rw [← readAll_fresh]
  exact makes_readAll unfinished_fresh pieces

end Assembler

end Terrarium
