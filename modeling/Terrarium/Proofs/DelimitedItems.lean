import Terrarium.Proofs.DelimitedReading
import Terrarium.Proofs.ItemRoundTrip

namespace Terrarium.Cbor

variable {α σ : Type}

section Pieces

variable (isText : Bool)

/-- One piece of a string of bytes or of a text after its head, with the level and what is read so
far. -/
def pieceAfter (level : Nat) (acc : Array UInt8) (head : Head) (s : List UInt8) :
    Reading (Array UInt8 ⊕ Nat × Array UInt8) :=
  match head with
  | .stop =>
      if level ≤ 1 then (if level = 1 then some (.inl acc, s) else none)
      else some (.inr (level - 1, acc), s)
  | .text none => if isText then some (.inr (level + 1, acc), s) else none
  | .bytes none => if isText then none else some (.inr (level + 1, acc), s)
  | .text (some n) =>
      (takeExact n s).bind fun (front, rest) =>
        if isText && (textOf? front).isSome then some (.inr (level, acc ++ front), rest) else none
  | .bytes (some n) =>
      (takeExact n s).bind fun (front, rest) =>
        if isText then none else some (.inr (level, acc ++ front), rest)
  | _ => none

/-- One piece. -/
def pieceTurn (state : Nat × Array UInt8) (s : List UInt8) :
    Reading (Array UInt8 ⊕ Nat × Array UInt8) :=
  (pull s).bind fun r => pieceAfter isText state.1 state.2 r.1 r.2

theorem delimited_pieceTurn (state : Nat × Array UInt8) : Delimited 1 (pieceTurn isText state) := by
  obtain ⟨level, acc⟩ := state
  refine delimited_pull.bind (g := pieceAfter isText level acc) (fun head => ?_) fun s => rfl
  have htaken (n : Nat) (f : List UInt8 → Bool) : Delimited 0 fun s =>
      (takeExact n s).bind fun (front, rest) =>
        if f front then some (Sum.inr (α := Array UInt8) (level, acc ++ front), rest) else none :=
    (delimited_takeExact n).weaken.bind
      (g := fun front s =>
        if f front then some (Sum.inr (α := Array UInt8) (level, acc ++ front), s) else none)
      (fun _ => .ite (.pure _) .fail) fun _ => rfl
  cases head with
  | stop => exact .ite (.ite (.pure _) .fail) (.pure _)
  | text length =>
      cases length with
      | none => exact .ite (.pure _) .fail
      | some n => exact htaken n fun front => isText && (textOf? front).isSome
  | bytes length =>
      cases length with
      | none => exact .ite .fail (.pure _)
      | some n =>
          convert htaken n fun _ => !isText using 2 with s
          cases isText <;> rfl
  | _ => exact .fail

theorem pieces_eq_rounds (bound : List UInt8) (level : Nat) (acc : Array UInt8) (s : List UInt8) :
    pieces isText bound level acc s = rounds (pieceTurn isText) bound (level, acc) s := by
  induction bound generalizing level acc s with
  | nil => rfl
  | cons _ bound ih =>
      unfold pieces
      rw [rounds, pieceTurn]
      rcases pull s with - | ⟨head, rest⟩
      · rfl
      cases head with
      | stop =>
          by_cases hlast : level ≤ 1 <;> by_cases hone : level = 1 <;>
            simp [pieceAfter, hlast, hone, ih]
      | text length =>
          cases length with
          | none => cases isText <;> simp [pieceAfter, ih]
          | some n =>
              rcases htake : takeExact n rest with - | ⟨front, rest⟩
              · simp [pieceAfter, htake]
              · cases isText <;> cases htext : (textOf? front).isSome <;>
                  simp [pieceAfter, htake, htext, ih]
      | bytes length =>
          cases length with
          | none => cases isText <;> simp [pieceAfter, ih]
          | some n =>
              rcases htake : takeExact n rest with - | ⟨front, rest⟩
              · simp [pieceAfter, htake]
              · cases isText <;> simp [pieceAfter, htake, ih]
      | _ => rfl

theorem delimited_pieces : Delimited 1 fun s => pieces isText s 1 #[] s := by
  simp only [pieces_eq_rounds]
  exact delimited_rounds (delimited_pieceTurn isText) (1, #[])

end Pieces

theorem delimited_bytesAfter (length : Option Nat) : Delimited 0 (bytesAfter length) := by
  cases length with
  | none => exact ((delimited_pieces false).map Array.toList).weaken
  | some n => exact (delimited_takeExact n).weaken

/-- The bytes of a text after its head. -/
def textBytes (length : Option Nat) (s : List UInt8) : Reading (List UInt8) :=
  match length with
  | some n => takeExact n s
  | none => (pieces true s 1 #[] s).map fun (acc, rest) => (acc.toList, rest)

theorem delimited_textBytes (length : Option Nat) : Delimited 0 (textBytes length) := by
  cases length with
  | none => exact ((delimited_pieces true).map Array.toList).weaken
  | some n => exact (delimited_takeExact n).weaken

theorem delimited_textAfter (length : Option Nat) : Delimited 0 (textAfter length) := by
  refine (delimited_textBytes length).bind (fun bytes => .ofOption (textOf? bytes)) fun s => ?_
  unfold textAfter textBytes
  dsimp only
  cases length with
  | none => cases pieces true s 1 #[] s <;> rfl
  | some n =>
      dsimp only
      cases takeExact n s <;> rfl

theorem delimited_nameAfter (head : Head) : Delimited 0 (nameAfter head) := by
  cases head with
  | text length =>
      cases length with
      | none => exact .fail
      | some n => exact .ite ((delimited_textAfter (some n)).map some) .fail
  | bytes length =>
      cases length with
      | none => exact .fail
      | some n => exact .ite ((delimited_takeExact n).weaken.map textOf?) .fail
  | _ => exact .fail

/-- Whether a head is given, or is a tag that is passed over. -/
def untagged (passes : UInt64 → Bool) : Head → Head ⊕ Unit
  | .tag n => if passes n then .inr () else .inl (.tag n)
  | head => .inl head

/-- One head in front of an item. -/
def tagTurn (passes : UInt64 → Bool) (_ : Unit) (s : List UInt8) : Reading (Head ⊕ Unit) :=
  (pull s).map fun (head, rest) => (untagged passes head, rest)

theorem pullPast_eq (passes : UInt64 → Bool) (bound s : List UInt8) :
    pullPast passes bound s = rounds (tagTurn passes) bound () s := by
  induction bound generalizing s with
  | nil => rfl
  | cons _ bound ih =>
      unfold pullPast
      rw [rounds, tagTurn]
      rcases pull s with - | ⟨head, rest⟩
      · rfl
      cases head with
      | tag n =>
          dsimp only [Option.map_some, untagged]
          split
          · exact ih rest
          · rfl
      | _ => rfl

theorem delimited_pullPast (passes : UInt64 → Bool) :
    Delimited 1 fun s => pullPast passes s s := by
  simp only [pullPast_eq]
  exact delimited_rounds (fun _ => delimited_pull.map (untagged passes)) ()

theorem delimited_pullUntagged : Delimited 1 pullUntagged := delimited_pullPast _

theorem delimited_pullNumber : Delimited 1 pullNumber := delimited_pullPast _

theorem delimited_readName : Delimited 1 readName := by
  refine delimited_pullUntagged.bind delimited_nameAfter fun s => ?_
  rw [readName]
  cases pullUntagged s <;> rfl

/-- The significant bytes of a big number after its head. -/
def bigBytesAfter (head : Head) (s : List UInt8) : Reading (List UInt8) :=
  match head with
  | .bytes length => (bytesAfter length s).map fun (bytes, rest) => (bytes.dropWhile (· = 0), rest)
  | _ => none

theorem delimited_bigBytes : Delimited 1 bigBytes := by
  refine delimited_pull.bind (g := bigBytesAfter) (fun head => ?_) fun s => ?_
  · cases head with
    | bytes length => exact (delimited_bytesAfter length).map _
    | _ => exact .fail
  · unfold bigBytes
    rcases pull s with - | ⟨head, rest⟩
    · rfl
    · cases head <;> rfl

/-- A word after its head, or after the tag of a big number. -/
def wordAfter (head : Head) (s : List UInt8) : Reading UInt64 :=
  match head with
  | .unsigned n => some (n, s)
  | .tag n =>
      if n = bigPositive then
        (bigBytes s).bind fun (bytes, rest) =>
          if bytes.length ≤ 8 then some (UInt64.ofNat (ofBigEndian bytes), rest) else none
      else none
  | _ => none

theorem readWord_eq (s : List UInt8) :
    readWord s = (pullNumber s).bind fun r => wordAfter r.1 r.2 := by
  unfold readWord
  rcases pullNumber s with - | ⟨head, rest⟩
  · rfl
  cases head with
  | tag n =>
      dsimp only [Option.bind_some, wordAfter]
      split
      · cases bigBytes rest <;> rfl
      · rfl
  | _ => rfl

theorem delimited_readWord : Delimited 1 readWord := by
  refine delimited_pullNumber.bind (fun head => ?_) readWord_eq
  cases head with
  | unsigned n => exact .pure n
  | tag n =>
      have hbig := delimited_bigBytes.weaken.bind
        (g := fun bytes s =>
          if bytes.length ≤ 8 then some (UInt64.ofNat (ofBigEndian bytes), s) else none)
        (fun bytes => .ite (.pure _) .fail) fun _ => rfl
      exact .ite hbig .fail
  | _ => exact .fail

theorem delimited_readWord32 : Delimited 1 readWord32 := by
  refine delimited_readWord.bind (g := fun n s =>
    if n.toNat < UInt32.size then some (UInt32.ofNat n.toNat, s) else none)
    (fun n => .ite (.pure _) .fail) fun s => ?_
  rw [readWord32]
  cases readWord s <;> rfl

def textAfterHead (head : Head) (s : List UInt8) : Reading String :=
  match head with
  | .text length => textAfter length s
  | _ => none

theorem delimited_readText : Delimited 1 readText := by
  refine delimited_pullUntagged.bind (g := textAfterHead) (fun head => ?_) fun s => ?_
  · cases head with
    | text length => exact delimited_textAfter length
    | _ => exact .fail
  · unfold readText
    rcases pullUntagged s with - | ⟨head, rest⟩
    · rfl
    · cases head <;> rfl

/-- The length that the head of a map gives. -/
def mapLength? : Head → Option (Option Nat)
  | .map length => some length
  | _ => none

theorem delimited_mapHead : Delimited 1 mapHead := by
  refine delimited_pullUntagged.bind (g := fun head s => (mapLength? head).map fun n => (n, s))
    (fun head => .ofOption (mapLength? head)) fun s => ?_
  unfold mapHead
  rcases pullUntagged s with - | ⟨head, rest⟩
  · rfl
  · cases head <;> rfl

section Skipping

/-- Passing over bytes, as a reader. -/
def passing (skip : List UInt8 → Option (List UInt8)) (s : List UInt8) : Reading Unit :=
  (skip s).map fun rest => ((), rest)

theorem Delimited.passing {read : List UInt8 → Reading α} {least : Nat}
    (h : Delimited least read) : Delimited least (passing fun s => (read s).map Prod.snd) := by
  refine h.bind (fun _ => .pure ()) fun s => ?_
  rw [Cbor.passing]
  cases read s <;> rfl

/-- What is passed over after a head. -/
def skipAfter (inner : Option (List UInt8 → Option (List UInt8))) (head : Head) (s : List UInt8) :
    Option (List UInt8) :=
  match head with
  | .unsigned _ | .negative _ | .float _ => some s
  | .simple n => if isKnownSimple n then some s else none
  | .bytes length => (bytesAfter length s).map Prod.snd
  | .text length => (textAfter length s).map Prod.snd
  | .tag tag =>
      match bigLength? tag s with
      | some (n, rest) => skipBig tag n rest
      | none => inner.bind fun inner => inner s
  | .array length =>
      match inner with
      | none => none
      | some inner => (elements (fun _ => passing inner) length () s).map Prod.snd
  | .map length =>
      match inner with
      | none => none
      | some inner =>
          (elements (fun _ => passing fun s => (inner s).bind inner) length () s).map Prod.snd
  | .stop => none

theorem skipWith_eq (inner : Option (List UInt8 → Option (List UInt8))) (s : List UInt8) :
    skipWith inner s = (pull s).bind fun r => skipAfter inner r.1 r.2 := by
  unfold skipWith
  rcases pull s with - | ⟨head, rest⟩
  · rfl
  · cases head <;> rfl

/-- The length of a big number whose tag and head are read. -/
def bigHead? (tag : UInt64) : Head → Option Nat
  | .bytes (some n) => if (tag = bigPositive || tag = bigNegative) && n ≤ 16 then some n else none
  | _ => none

theorem bigLength?_eq (tag : UInt64) (s : List UInt8) :
    bigLength? tag s = (pull s).bind fun r => (bigHead? tag r.1).map fun n => (n, r.2) := by
  unfold bigLength?
  rcases pull s with - | ⟨head, rest⟩
  · split <;> rfl
  · cases head with
    | bytes length =>
        cases length with
        | none => split <;> rfl
        | some n =>
            dsimp only [Option.bind_some, bigHead?]
            split <;> split <;> simp_all
    | _ => split <;> rfl

theorem delimited_skipBig (tag : UInt64) (n : Nat) : Delimited 0 (passing (skipBig tag n)) := by
  refine (delimited_takeExact n).weaken.bind (g := fun bytes s =>
    if tag = bigPositive || ofBigEndian bytes < Nat.pow 2 127 then some ((), s) else none)
    (fun _ => .ite (.pure ()) .fail) fun s => ?_
  rw [passing, skipBig]
  rcases takeExact n s with - | ⟨bytes, rest⟩
  · rfl
  · dsimp only [Option.bind_some]
    split <;> rfl

/-- What passes over the contents of a container or of a tag. -/
def within : Nat → Option (List UInt8 → Option (List UInt8))
  | 0 => none
  | depth + 1 => some (skip depth)

theorem skip_eq (depth : Nat) (s : List UInt8) :
    skip depth s = (pull s).bind fun r => skipAfter (within depth) r.1 r.2 := by
  cases depth <;> exact skipWith_eq _ s

theorem delimited_of_skipAfter {depth : Nat}
    (h : ∀ head, Delimited 0 (passing (skipAfter (within depth) head))) :
    Delimited 1 (passing (skip depth)) := by
  refine delimited_pull.bind h fun s => ?_
  rw [passing, skip_eq]
  cases pull s <;> rfl

/-- What is passed over after a tag and the head of what it stands before: a big number, or an item
whose head has been looked at already. -/
def skipTagged (tag : UInt64) (depth : Nat) (head : Head) (s : List UInt8) :
    Option (List UInt8) :=
  match bigHead? tag head, depth with
  | some n, _ => skipBig tag n s
  | none, 0 => none
  | none, d + 1 => skipAfter (within d) head s

theorem delimited_skipAfter_tag {depth : Nat} (tag : UInt64)
    (h : ∀ d, depth = d + 1 → ∀ head, Delimited 0 (passing (skipAfter (within d) head))) :
    Delimited 0 (passing (skipAfter (within depth) (.tag tag))) := by
  refine delimited_pull.weaken.bind (g := fun head => passing (skipTagged tag depth head))
    (fun head => ?_) fun s => ?_
  · unfold skipTagged
    cases bigHead? tag head with
    | some n => exact delimited_skipBig tag n
    | none =>
        cases depth with
        | zero => exact .fail
        | succ d => exact h d rfl head
  · rw [passing, skipAfter, bigLength?_eq]
    cases depth with
    | zero =>
        rcases pull s with - | ⟨head, rest⟩
        · rfl
        · simp only [Option.bind_some, passing, skipTagged]
          cases bigHead? tag head <;> rfl
    | succ d =>
        simp only [within, Option.bind_some, skip_eq]
        rcases pull s with - | ⟨head, rest⟩
        · rfl
        · simp only [Option.bind_some, passing, skipTagged]
          cases bigHead? tag head <;> rfl

theorem delimited_passing_elements {inner : List UInt8 → Option (List UInt8)}
    (hinner : Delimited 1 (passing inner)) (length : Option Nat) :
    Delimited 0 (passing fun s => (elements (fun _ => passing inner) length () s).map Prod.snd) :=
  (delimited_elements (fun _ => hinner) length ()).passing

theorem delimited_passing_bind {inner : List UInt8 → Option (List UInt8)}
    (hinner : Delimited 1 (passing inner)) : Delimited 1 (passing fun s => (inner s).bind inner) := by
  refine hinner.bind (fun _ => hinner.weaken) fun s => ?_
  simp only [passing]
  cases inner s <;> rfl

theorem delimited_skipAfter_simple (inner : Option (List UInt8 → Option (List UInt8))) (n : Nat) :
    Delimited 0 (passing (skipAfter inner (.simple n))) := by
  convert Delimited.ite (c := isKnownSimple n) (.pure ()) .fail using 2 with s
  rw [passing, skipAfter]
  split <;> rfl

theorem delimited_skipAfter (depth : Nat) (head : Head) :
    Delimited 0 (passing (skipAfter (within depth) head)) := by
  induction depth generalizing head with
  | zero =>
      cases head with
      | unsigned n => exact .pure ()
      | negative n => exact .pure ()
      | float x => exact .pure ()
      | simple n => exact delimited_skipAfter_simple _ n
      | bytes length => exact (delimited_bytesAfter length).passing
      | text length => exact (delimited_textAfter length).passing
      | tag tag => exact delimited_skipAfter_tag tag fun d hd => by cases hd
      | _ => exact .fail
  | succ depth ih =>
      have hinner : Delimited 1 (passing (skip depth)) := delimited_of_skipAfter ih
      cases head with
      | unsigned n => exact .pure ()
      | negative n => exact .pure ()
      | float x => exact .pure ()
      | simple n => exact delimited_skipAfter_simple _ n
      | bytes length => exact (delimited_bytesAfter length).passing
      | text length => exact (delimited_textAfter length).passing
      | tag tag => exact delimited_skipAfter_tag tag fun d hd => by cases hd; exact ih
      | array length => exact delimited_passing_elements hinner length
      | map length => exact delimited_passing_elements (delimited_passing_bind hinner) length
      | stop => exact .fail

theorem ignore_keeps {depth : Nat} {a b : σ} {s rest : List UInt8}
    (h : ignore depth a s = some (b, rest)) : b = a := by
  rw [ignore, Option.map_eq_some_iff] at h
  obtain ⟨r, -, hr⟩ := h
  exact (congrArg Prod.fst hr).symm

theorem delimited_ignore (depth : Nat) (a : σ) : Delimited 1 (ignore depth a) := by
  refine (delimited_of_skipAfter (delimited_skipAfter depth)).bind (fun _ => .pure a) fun s => ?_
  rw [ignore, passing]
  cases skip depth s <;> rfl

end Skipping

section Containers

theorem delimited_fill {read : List UInt8 → Reading α} {least : Nat} (h : Delimited least read)
    (slot : Option α) : Delimited least (fill slot read) := by
  cases slot with
  | none => exact h.map some
  | some a => exact .fail

/-- The name of a choice after its head. -/
def choiceAfter : Head → List UInt8 → Reading (Option String)
  | .map (some 1), s => readName s
  | .text length, s => nameAfter (.text length) s
  | _, _ => none

theorem delimited_choiceAfter (head : Head) : Delimited 0 (choiceAfter head) := by
  unfold choiceAfter
  cases head with
  | map length =>
      rcases length with - | (- | - | n)
      · exact .fail
      · exact .fail
      · exact delimited_readName.weaken
      · exact .fail
  | text length => exact delimited_nameAfter (.text length)
  | _ => exact .fail

theorem delimited_choice {content : (depth : Nat) → Option String → List UInt8 → Reading α}
    (hcontent : ∀ depth name, Delimited 0 (content depth name)) (depth : Nat) :
    Delimited 1 (choice depth content) := by
  cases depth with
  | zero => exact .fail
  | succ depth =>
      have hname : Delimited 1 fun s => (pullUntagged s).bind fun r => choiceAfter r.1 r.2 :=
        delimited_pullUntagged.bind delimited_choiceAfter fun _ => rfl
      refine hname.bind (hcontent depth) fun s => ?_
      rw [choice]
      rcases pullUntagged s with - | ⟨head, rest⟩
      · rfl
      cases head with
      | map length =>
          rcases length with - | (- | - | n)
          · rfl
          · rfl
          · simp only [Option.bind_some, choiceAfter]
            cases readName rest <;> rfl
          · rfl
      | text length =>
          simp only [Option.bind_some, choiceAfter]
          cases nameAfter (.text length) rest <;> rfl
      | _ => rfl

theorem delimited_namedStep {entry : Option String → σ → List UInt8 → Reading σ}
    (hentry : ∀ name a, Delimited 0 (entry name a)) (a : σ) : Delimited 1 (namedStep entry a) := by
  refine delimited_readName.bind (fun name => hentry name a) fun s => ?_
  rw [namedStep]
  cases readName s <;> rfl

theorem delimited_record
    {entry : (depth : Nat) → Option String → σ → List UInt8 → Reading σ}
    (hentry : ∀ depth name a, Delimited 0 (entry depth name a)) (depth : Nat) (start : σ) :
    Delimited 1 (record depth entry start) := by
  cases depth with
  | zero => exact .fail
  | succ depth =>
      have hstep := delimited_namedStep (hentry depth)
      refine delimited_mapHead.bind (fun length => delimited_elements hstep length start) fun s => ?_
      rw [record]
      cases mapHead s <;> rfl

end Containers

namespace Datum

/-- The tree of a simple value. -/
def simple? : Nat → Option Datum
  | 20 => some (bool false)
  | 21 => some (bool true)
  | 22 => some null
  | 23 => some null
  | _ => none

/-- The tree of an item after its head. -/
def readAfter (inner : Option (List UInt8 → Reading Datum)) (head : Head) (s : List UInt8) :
    Reading Datum :=
  match head with
  | .unsigned n => some (unsigned n, s)
  | .negative n => if n.toNat < Nat.pow 2 63 then some (negative n, s) else none
  | .float x => some (float x, s)
  | .simple n => (simple? n).map fun d => (d, s)
  | .bytes length => (bytesAfter length s).map fun (b, rest) => (bytes b, rest)
  | .text length => (textAfter length s).map fun (t, rest) => (text t, rest)
  | .array length =>
      match inner with
      | none => none
      | some inner =>
          (elements
            (fun (acc : Array Datum) s => (inner s).map fun (item, rest) => (acc.push item, rest))
            length #[] s).map fun (acc, rest) => (array acc.toList, rest)
  | .map length =>
      match inner with
      | none => none
      | some inner =>
          (elements
            (fun (acc : Array (Datum × Datum)) s =>
              match inner s with
              | none => none
              | some (key, s) => (inner s).map fun (value, rest) => (acc.push (key, value), rest))
            length #[] s).map fun (acc, rest) => (map acc.toList, rest)
  | _ => none

theorem readWith_eq (inner : Option (List UInt8 → Reading Datum)) (s : List UInt8) :
    readWith inner s = (pull s).bind fun r => readAfter inner r.1 r.2 := by
  unfold readWith readAfter
  rcases pull s with - | ⟨head, rest⟩
  · rfl
  · cases head with
    | simple n =>
        unfold simple?
        dsimp only [Option.bind_some]
        split <;> split <;> simp_all
    | _ => rfl

theorem delimited_readWith {inner : Option (List UInt8 → Reading Datum)}
    (hinner : ∀ read ∈ inner, Delimited 1 read) : Delimited 1 (readWith inner) := by
  refine delimited_pull.bind (g := readAfter inner) (fun head => ?_) (readWith_eq inner)
  cases head with
  | unsigned n => exact .pure _
  | negative n => exact .ite (.pure _) .fail
  | float x => exact .pure _
  | simple n => exact .ofOption (simple? n)
  | bytes length => exact (delimited_bytesAfter length).map bytes
  | text length => exact (delimited_textAfter length).map text
  | array length =>
      cases inner with
      | none => exact .fail
      | some inner =>
          have hstep (acc : Array Datum) := (hinner inner rfl).map acc.push
          exact (delimited_elements hstep length #[]).map fun acc => array acc.toList
  | map length =>
      cases inner with
      | none => exact .fail
      | some inner =>
          have hread := hinner inner rfl
          have hstep (acc : Array (Datum × Datum)) : Delimited 1 fun s => match inner s with
              | none => none
              | some (key, s) =>
                  (inner s).map fun (value, rest) => (acc.push (key, value), rest) := by
            refine hread.bind (fun key => hread.weaken.map fun value => acc.push (key, value))
              fun s => ?_
            cases inner s <;> rfl
          exact (delimited_elements hstep length #[]).map fun acc => map acc.toList
  | _ => exact .fail

theorem delimited_read (depth : Nat) : Delimited 1 (read depth) := by
  induction depth with
  | zero => exact delimited_readWith fun _ h => by cases h
  | succ depth ih => exact delimited_readWith fun _ h => by cases h; exact ih

end Datum

end Terrarium.Cbor
