import Terrarium.Yaml.Token

namespace Terrarium.Yaml

/-- A scalar, with the text of its tag if it has one. -/
structure Scalar where
  style : Style
  tag : Option String
  text : String

/-- What may be read as a value of the type with a tag: a plain scalar, or a literal one with just
this tag. -/
def Scalar.valueText? (s : Scalar) (tag : String) : Option String :=
  if s.style = .plain || s.style = .literal && s.tag = some tag then some s.text else none

/-- What stands in a document. -/
inductive Node where
  | scalar (s : Scalar)
  | alias (number : Nat)
  | sequence (items : List Node)
  | mapping (entries : List (Node × Node))

/-- What stands where nothing is written. -/
def Node.empty : Node := .scalar ⟨.plain, none, ""⟩

/-- The anchors of a document so far: their names with their numbers, and by number the scalars that
they stand before. There is none where an anchor stands before a collection. -/
structure Anchors where
  names : List (String × Nat)
  scalars : List (Nat × Option Scalar)

def Anchors.none : Anchors := ⟨[], []⟩

/-- One more anchor. Its number is how many names there are; a name that comes again is moved to its
new number, and what had this number before is lost. -/
def Anchors.add (a : Anchors) (name : String) (s : Option Scalar) : Anchors :=
  let number := a.names.length
  ⟨(name, number) :: a.names.filter (·.1 ≠ name), (number, s) :: a.scalars⟩

/-- The scalar with a number, if there is one. -/
def Anchors.scalar? (a : Anchors) (number : Nat) : Option Scalar := (a.scalars.lookup number).join

/-- What is left to be read of a document, the anchors so far, and what the handles of tags stand
for. -/
structure Remainder where
  tokens : List Token
  anchors : Anchors
  handles : Handles

/-- What a node may have in front of it. -/
structure Properties where
  anchor : Option String
  tag : Option String

namespace Remainder

/-- Whether one of some tokens is next. -/
def sees (r : Remainder) (ts : List Token) : Bool := r.tokens.head?.any (· ∈ ts)

/-- What is left after `n` tokens. -/
def drop (r : Remainder) (n : Nat) : Remainder := { r with tokens := r.tokens.drop n }

/-- What is left after a token that has to be next. -/
def after? (r : Remainder) (t : Token) : Option Remainder :=
  if r.sees [t] then some (r.drop 1) else none

/-- One more anchor, if there is one. -/
def anchored (r : Remainder) (p : Properties) (s : Option Scalar) : Remainder :=
  match p.anchor with
  | none => r
  | some name => { r with anchors := r.anchors.add name s }

/-- The text of a tag, of which the handle has to be known. -/
def tagText? (r : Remainder) (t : Tag) : Option (Option String) := (r.handles.text? t).map some

/-- The properties in front of a node, in either order, and how many tokens they take. -/
def properties? (r : Remainder) : Option (Properties × Nat) :=
  match r.tokens with
  | .anchor name :: .tag t :: _ => (r.tagText? t).map fun tag => (⟨some name, tag⟩, 2)
  | .tag t :: .anchor name :: _ => (r.tagText? t).map fun tag => (⟨some name, tag⟩, 2)
  | .anchor name :: _ => some (⟨some name, none⟩, 1)
  | .tag t :: _ => (r.tagText? t).map fun tag => (⟨none, tag⟩, 1)
  | _ => some (⟨none, none⟩, 0)

def scalar (r : Remainder) (p : Properties) (style : Style) (text : String) : Node × Remainder :=
  let s : Scalar := ⟨style, p.tag, text⟩
  (.scalar s, r.anchored p (some s))

end Remainder

/-- What may stand in place of an entry of a block mapping. -/
def blockStops : List Token := [.key, .value, .blockEnd]

mutual

/-- Reads a node, in a block collection or in a flow collection. A block sequence may stand in the
column of its key. -/
def node (block besideKey : Bool) : Nat → Remainder → Option (Node × Remainder)
  | 0, _ => none
  | fuel + 1, r =>
      match r.tokens with
      | .alias name :: _ =>
          (r.anchors.names.lookup name).map fun number => (.alias number, r.drop 1)
      | _ =>
          match r.properties? with
          | none => none
          | some (p, n) =>
              let r := r.drop n
              let collection := (r.drop 1).anchored p none
              match r.tokens with
              | .scalar style text :: _ => some ((r.drop 1).scalar p style text)
              | .flowSequence :: _ =>
                  (flowItems true fuel collection).map fun (ns, r) => (.sequence ns, r)
              | .flowMapping :: _ =>
                  (flowEntries true fuel collection).map fun (es, r) => (.mapping es, r)
              | .blockSequence :: _ =>
                  if block then
                    (blockItems fuel collection).map fun (ns, r) => (.sequence ns, r)
                  else none
              | .blockMapping :: _ =>
                  if block then
                    (blockEntries fuel collection).map fun (es, r) => (.mapping es, r)
                  else none
              | .entry :: _ =>
                  if besideKey then
                    (itemsBesideKey fuel (r.anchored p none)).map fun (ns, r) => (.sequence ns, r)
                  else if n = 0 then none
                  else some (r.scalar p .plain "")
              | _ => if n = 0 then none else some (r.scalar p .plain "")
termination_by structural fuel => fuel

/-- Reads a node, or nothing if one of some tokens is next. -/
def nodeBefore (stops : List Token) (block besideKey : Bool) :
    Nat → Remainder → Option (Node × Remainder)
  | 0, _ => none
  | fuel + 1, r =>
      if r.sees stops then some (.empty, r) else node block besideKey fuel r
termination_by structural fuel => fuel

/-- Reads the value after a key, which may be missing. -/
def valueBefore (stops : List Token) (block : Bool) : Nat → Remainder → Option (Node × Remainder)
  | 0, _ => none
  | fuel + 1, r =>
      if r.sees [.value] then nodeBefore stops block block fuel (r.drop 1) else some (.empty, r)
termination_by structural fuel => fuel

/-- Reads a key and its value. -/
def pair (stops : List Token) (block : Bool) :
    Nat → Remainder → Option ((Node × Node) × Remainder)
  | 0, _ => none
  | fuel + 1, r => do
      let (key, r) ← nodeBefore stops block block fuel r
      let (value, r) ← valueBefore stops block fuel r
      return ((key, value), r)
termination_by structural fuel => fuel

/-- Reads the only pair of a mapping that is a member of a flow sequence. If there is no key, the
token after it is passed over. -/
def lonePair : Nat → Remainder → Option (Node × Remainder)
  | 0, _ => none
  | fuel + 1, r => do
      let stops := [.value, .comma, .flowSequenceEnd]
      let (key, r) ←
        if r.sees stops then some (.empty, r.drop 1) else node false false fuel r
      let (value, r) ← valueBefore stops false fuel r
      return (.mapping [(key, value)], r)
termination_by structural fuel => fuel

/-- Reads the members of a flow sequence, to its end. -/
def flowItems (first : Bool) : Nat → Remainder → Option (List Node × Remainder)
  | 0, _ => none
  | fuel + 1, r =>
      if r.sees [.flowSequenceEnd] then some ([], r.drop 1)
      else do
        let r ← if first then some r else r.after? .comma
        if r.sees [.flowSequenceEnd] then return ([], r.drop 1)
        else
          let (n, r) ← if r.sees [.key] then lonePair fuel (r.drop 1) else node false false fuel r
          let (ns, r) ← flowItems false fuel r
          return (n :: ns, r)
termination_by structural fuel => fuel

/-- Reads the members of a flow mapping, to its end. A node alone is a key without a value. -/
def flowEntries (first : Bool) : Nat → Remainder → Option (List (Node × Node) × Remainder)
  | 0, _ => none
  | fuel + 1, r =>
      if r.sees [.flowMappingEnd] then some ([], r.drop 1)
      else do
        let r ← if first then some r else r.after? .comma
        if r.sees [.flowMappingEnd] then return ([], r.drop 1)
        else
          let (e, r) ←
            if r.sees [.key] then pair [.value, .comma, .flowMappingEnd] false fuel (r.drop 1)
            else (node false false fuel r).map fun (n, r) => ((n, .empty), r)
          let (es, r) ← flowEntries false fuel r
          return (e :: es, r)
termination_by structural fuel => fuel

/-- Reads the items of a block sequence, to its end. -/
def blockItems : Nat → Remainder → Option (List Node × Remainder)
  | 0, _ => none
  | fuel + 1, r =>
      if r.sees [.blockEnd] then some ([], r.drop 1)
      else do
        let r ← r.after? .entry
        let (n, r) ← nodeBefore [.entry, .blockEnd] true false fuel r
        let (ns, r) ← blockItems fuel r
        return (n :: ns, r)
termination_by structural fuel => fuel

/-- Reads the items of a sequence in the column of its key, which ends where no dash is next. -/
def itemsBesideKey : Nat → Remainder → Option (List Node × Remainder)
  | 0, _ => none
  | fuel + 1, r =>
      if r.sees [.entry] then do
        let (n, r) ← nodeBefore (.entry :: blockStops) true false fuel (r.drop 1)
        let (ns, r) ← itemsBesideKey fuel r
        return (n :: ns, r)
      else some ([], r)
termination_by structural fuel => fuel

/-- Reads the entries of a block mapping, to its end. -/
def blockEntries : Nat → Remainder → Option (List (Node × Node) × Remainder)
  | 0, _ => none
  | fuel + 1, r =>
      if r.sees [.blockEnd] then some ([], r.drop 1)
      else do
        let r ← r.after? .key
        let (e, r) ← pair blockStops true fuel r
        let (es, r) ← blockEntries fuel r
        return (e :: es, r)
termination_by structural fuel => fuel

end

/-- A document: its node, and the anchors in it. -/
structure Document where
  root : Node
  anchors : Anchors

/-- The scalar that a node is or that an alias stands for. -/
def Document.scalar? (d : Document) : Node → Option Scalar
  | .scalar s => some s
  | .alias number => d.anchors.scalar? number
  | _ => none

/-- The directives in front of a document, and what follows them. The version is given at most once
and is 1.1 or 1.2, and no handle is given twice. -/
def directives (versioned : Bool) (h : Handles) : List Token → Option (Handles × List Token)
  | .directive (.version major minor) :: ts =>
      if !versioned && major = 1 && (minor = 1 || minor = 2) then directives true h ts else none
  | .directive (.handle name stands) :: ts =>
      if h.given.any (·.1 = name) then none
      else directives versioned ⟨(name, stands) :: h.given⟩ ts
  | ts => some (h, ts)

/-- Whether there is nothing in a document before some tokens. -/
def isBare : List Token → Bool
  | [] => true
  | .directive _ :: _ => true
  | .documentStart :: _ => true
  | .documentEnd :: _ => true
  | _ => false

/-- Reads the node of a document that tokens begin with. -/
def contents (h : Handles) (ts : List Token) : Option (Node × Remainder) :=
  node true false (4 * ts.length + 4) ⟨ts, .none, h⟩

/-- Reads the only document of a text. -/
def Document.ofTokens? (ts : List Token) : Option Document := do
  let (h, rest) ← directives false ⟨[]⟩ ts
  let (root, r) ←
    match rest with
    | [] => if ts.isEmpty then some (.empty, ⟨[], .none, h⟩) else none
    | .documentStart :: rest =>
        if isBare rest then some (.empty, ⟨rest, .none, h⟩) else contents h rest
    | _ => if rest.length = ts.length then contents h ts else none
  if r.tokens.all (· = .documentEnd) then return ⟨root, r.anchors⟩ else none

/-- Reads a text with a single document. Nothing is written in one that is empty. -/
def document? (text : String) : Option Document := tokens? text >>= Document.ofTokens?

end Terrarium.Yaml
