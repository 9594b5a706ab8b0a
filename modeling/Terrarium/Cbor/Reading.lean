import Terrarium.Cbor.Head

/-!
Reading CBOR items from a string of bytes. A reader gives what it read and the bytes left over, or
nothing. Tags before an item are passed over, whole numbers may come as big numbers that fit,
lengths may be left open, and the number of containers around an item is limited.
-/
namespace Terrarium.Cbor

/-- What a reader of an item gives. -/
abbrev Reading (α : Type) := Option (α × List UInt8)

variable {α σ : Type}

/-- Runs a step a number of times. -/
def times (step : σ → List UInt8 → Reading σ) : Nat → σ → List UInt8 → Reading σ
  | 0, a, s => some (a, s)
  | n + 1, a, s =>
      match step a s with
      | none => none
      | some (a, s) => times step n a s

/-- Runs a step until a stop. Each round takes at least one byte, so a string as long as the one
that is read bounds the rounds. -/
def untilStop (step : σ → List UInt8 → Reading σ) : (bound : List UInt8) → σ → List UInt8 → Reading σ
  | [], _, _ => none
  | _ :: bound, a, s =>
      match s with
      | 0xff :: rest => some (a, rest)
      | s =>
          match step a s with
          | none => none
          | some (a, s) => untilStop step bound a s

/-- Runs a step for every element of a container. -/
def elements (step : σ → List UInt8 → Reading σ) (length : Option Nat) (a : σ) (s : List UInt8) :
    Reading σ :=
  match length with
  | some n => times step n a s
  | none => untilStop step s a s

/-- Reads the text that bytes stand for. -/
def textOf? (bytes : List UInt8) : Option String := String.fromUTF8? ⟨bytes.toArray⟩

/-- The pieces of a string of bytes or, if `isText`, of a text, which may be cut into pieces at
several levels; `level` counts the stops still to come, and a string as long as the one that is read
bounds the pieces. -/
def pieces (isText : Bool) :
    (bound : List UInt8) → (level : Nat) → Array UInt8 → List UInt8 → Reading (Array UInt8)
  | [], _, _, _ => none
  | _ :: bound, level, acc, s =>
      match pull s with
      | some (.stop, rest) =>
          if level ≤ 1 then (if level = 1 then some (acc, rest) else none)
          else pieces isText bound (level - 1) acc rest
      | some (.text none, rest) => if isText then pieces isText bound (level + 1) acc rest else none
      | some (.bytes none, rest) => if isText then none else pieces isText bound (level + 1) acc rest
      | some (.text (some n), rest) =>
          match takeExact n rest with
          | some (front, rest) =>
              if isText && (textOf? front).isSome then pieces isText bound level (acc ++ front) rest
              else none
          | none => none
      | some (.bytes (some n), rest) =>
          match takeExact n rest with
          | some (front, rest) => if isText then none else pieces isText bound level (acc ++ front) rest
          | none => none
      | _ => none

/-- Reads a string of bytes whose head is already read. -/
def bytesAfter (length : Option Nat) (s : List UInt8) : Reading (List UInt8) :=
  match length with
  | some n => takeExact n s
  | none => (pieces false s 1 #[] s).map fun (acc, rest) => (acc.toList, rest)

/-- Reads a text whose head is already read. -/
def textAfter (length : Option Nat) (s : List UInt8) : Reading String :=
  let bytes := match length with
    | some n => takeExact n s
    | none => (pieces true s 1 #[] s).map fun (acc, rest) => (acc.toList, rest)
  match bytes with
  | none => none
  | some (bytes, rest) => (textOf? bytes).map fun text => (text, rest)

/-- The longest name, in bytes. -/
def nameLimit : Nat := 4096

/-- Reads a name whose head is already read: a text or a string of bytes of a given length that is
not too long. Bytes that are no text are a name that nothing has. -/
def nameAfter (head : Head) (s : List UInt8) : Reading (Option String) :=
  match head with
  | .text (some n) =>
      if n ≤ nameLimit then (textAfter (some n) s).map fun (text, rest) => (some text, rest) else none
  | .bytes (some n) =>
      if n ≤ nameLimit then (takeExact n s).map fun (bytes, rest) => (textOf? bytes, rest) else none
  | _ => none

/-- Reads heads past the tags in front of an item; a string as long as the one that is read bounds
their number. -/
def pullPast (passes : UInt64 → Bool) : (bound : List UInt8) → List UInt8 → Reading Head
  | [], _ => none
  | _ :: bound, s =>
      match pull s with
      | some (.tag n, rest) => if passes n then pullPast passes bound rest else some (.tag n, rest)
      | other => other

/-- Reads the head of an item, passing over the tags in front of it. -/
def pullUntagged (s : List UInt8) : Reading Head := pullPast (fun _ => true) s s

def readName (s : List UInt8) : Reading (Option String) :=
  match pullUntagged s with
  | none => none
  | some (head, rest) => nameAfter head rest

/-- The tag of big numbers from zero up. -/
def bigPositive : UInt64 := 2

/-- The tag of big numbers below zero. -/
def bigNegative : UInt64 := 3

/-- Reads the head of an item, passing over the tags in front of it, but for those of big
numbers. -/
def pullNumber (s : List UInt8) : Reading Head :=
  pullPast (fun n => n ≠ bigPositive && n ≠ bigNegative) s s

/-- Reads the significant bytes of a big number, whose tag is already read. -/
def bigBytes (s : List UInt8) : Reading (List UInt8) :=
  match pull s with
  | some (.bytes length, rest) =>
      (bytesAfter length rest).map fun (bytes, rest) => (bytes.dropWhile (· = 0), rest)
  | _ => none

def readWord (s : List UInt8) : Reading UInt64 :=
  match pullNumber s with
  | some (.unsigned n, rest) => some (n, rest)
  | some (.tag n, rest) =>
      if n = bigPositive then
        match bigBytes rest with
        | some (bytes, rest) =>
            if bytes.length ≤ 8 then some (UInt64.ofNat (ofBigEndian bytes), rest) else none
        | none => none
      else none
  | _ => none

def readWord32 (s : List UInt8) : Reading UInt32 :=
  match readWord s with
  | some (n, rest) => if n.toNat < UInt32.size then some (UInt32.ofNat n.toNat, rest) else none
  | none => none

def readText (s : List UInt8) : Reading String :=
  match pullUntagged s with
  | some (.text length, rest) => textAfter length rest
  | _ => none

/-- Reads the head of a map. -/
def mapHead (s : List UInt8) : Reading (Option Nat) :=
  match pullUntagged s with
  | some (.map length, rest) => some (length, rest)
  | _ => none

/-- The simple values that mean something: the truth values, null and undefined. -/
def isKnownSimple (n : Nat) : Bool := 20 ≤ n && n ≤ 23

/-- The length of the bytes that follow the tag of a big number, if it is given and they are at most
sixteen. Whatever else follows is an item like any other. -/
def bigLength? (tag : UInt64) (s : List UInt8) : Option (Nat × List UInt8) :=
  if tag = bigPositive || tag = bigNegative then
    match pull s with
    | some (.bytes (some n), rest) => if n ≤ 16 then some (n, rest) else none
    | _ => none
  else none

/-- Passes over the bytes of a big number; below zero it has one bit less than from zero up. -/
def skipBig (tag : UInt64) (n : Nat) (s : List UInt8) : Option (List UInt8) :=
  match takeExact n s with
  | some (bytes, rest) =>
      if tag = bigPositive || ofBigEndian bytes < Nat.pow 2 127 then some rest else none
  | none => none

/-- Passes over one item; `inner` passes over what stands in a container or after a tag, if there may
be one. -/
def skipWith (inner : Option (List UInt8 → Option (List UInt8))) (s : List UInt8) :
    Option (List UInt8) :=
  match pull s with
  | some (.unsigned _, rest) => some rest
  | some (.negative _, rest) => some rest
  | some (.float _, rest) => some rest
  | some (.simple n, rest) => if isKnownSimple n then some rest else none
  | some (.bytes length, rest) => (bytesAfter length rest).map Prod.snd
  | some (.text length, rest) => (textAfter length rest).map Prod.snd
  | some (.tag tag, rest) =>
      match bigLength? tag rest with
      | some (n, rest) => skipBig tag n rest
      | none => inner.bind fun inner => inner rest
  | some (.array length, rest) =>
      match inner with
      | none => none
      | some inner =>
          (elements (fun _ s => (inner s).map fun r => ((), r)) length () rest).map Prod.snd
  | some (.map length, rest) =>
      match inner with
      | none => none
      | some inner =>
          (elements (fun _ s => ((inner s).bind inner).map fun r => ((), r)) length () rest).map Prod.snd
  | _ => none

/-- Passes over one item with at most `depth` containers and tags inside each other. -/
def skip : (depth : Nat) → List UInt8 → Option (List UInt8)
  | 0 => skipWith none
  | depth + 1 => skipWith (some (skip depth))

/-- Reads into a slot that has to be vacant: nothing may be given twice. -/
def fill (slot : Option α) (read : List UInt8 → Reading α) (s : List UInt8) : Reading (Option α) :=
  match slot with
  | some _ => none
  | none => (read s).map fun (a, rest) => (some a, rest)

/-- Reads a choice: its name alone, or a map whose only key is the name. What the choice carries
comes next in either form; `content` reads it, with one container less to go. -/
def choice (depth : Nat) (content : (depth : Nat) → Option String → List UInt8 → Reading α)
    (s : List UInt8) : Reading α :=
  match depth with
  | 0 => none
  | depth + 1 =>
      let named := match pullUntagged s with
        | some (.map (some 1), rest) => readName rest
        | some (.text length, rest) => nameAfter (.text length) rest
        | _ => none
      match named with
      | none => none
      | some (n, rest) => content depth n rest

/-- Reads a record: a map whose entries `entry` reads one by one, with one container less to go. -/
def record (depth : Nat) (entry : (depth : Nat) → Option String → σ → List UInt8 → Reading σ) (start : σ)
    (s : List UInt8) : Reading σ :=
  match depth with
  | 0 => none
  | depth + 1 =>
      match mapHead s with
      | none => none
      | some (length, rest) =>
          elements
            (fun a s =>
              match readName s with
              | none => none
              | some (n, s) => entry depth n a s)
            length start rest

/-- Passes over the value of a key that means nothing. -/
def ignore (depth : Nat) (a : σ) (s : List UInt8) : Reading σ := (skip depth s).map fun r => (a, r)

end Terrarium.Cbor
