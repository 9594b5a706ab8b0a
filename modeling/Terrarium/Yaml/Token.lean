import Terrarium.Yaml.Block
import Terrarium.Yaml.Tag

/-!
Tokens of a YAML text. The columns of block collections become tokens at which they begin and end,
and a key without a question mark is known for one only at its colon: the token before it is put in
when the colon is met.
-/
namespace Terrarium.Yaml

/-- A token. -/
inductive Token where
  | directive (d : Directive)
  | documentStart
  | documentEnd
  | blockSequence
  | blockMapping
  | blockEnd
  | flowSequence
  | flowSequenceEnd
  | flowMapping
  | flowMappingEnd
  | entry
  | comma
  | key
  | value
  | alias (name : String)
  | anchor (name : String)
  | tag (t : Tag)
  | scalar (style : Style) (text : String)
deriving DecidableEq

/-- Where a key may have begun: how many tokens stood before it, and its place. A key is required
where only a key can stand. -/
structure KeyStart where
  before : Nat
  place : Place
  required : Bool

/-- How many bytes at most stand between the beginning of a key and its colon. -/
def keyLimit : Nat := 1024

/-- How many bytes stand between two places of the same line. -/
def Place.bytesTo (p q : Place) : Nat :=
  (p.rest.take (q.column - p.column)).foldl (fun n c => n + c.utf8Size) 0

/-- Whether a colon at a place can still belong to the key: it stands on the same line, and not too
far off. Since a character takes a byte at least, the bytes of a long way need not be counted. -/
def KeyStart.reaches (k : KeyStart) (p : Place) : Bool :=
  k.place.line = p.line && p.column ≤ k.place.column + keyLimit && k.place.bytesTo p ≤ keyLimit

/-- Tokens as far as they are read, the columns of the block collections that are open, innermost
first, where a key may have begun in the innermost collection and in those around the flow
collections, and whether a key may begin. -/
structure Scan where
  tokens : Array Token
  columns : List Nat
  start : Option KeyStart
  outer : List (Option KeyStart)
  keys : Bool

namespace Scan

def initial : Scan := ⟨#[], [], none, [], true⟩

/-- Whether a flow collection is open. -/
def inFlow (s : Scan) : Bool := !s.outer.isEmpty

/-- The least column of what stands in the innermost block collection. -/
def least (s : Scan) : Nat :=
  match s.columns with
  | [] => 0
  | c :: _ => c + 1

def push (t : Token) (s : Scan) : Scan := { s with tokens := s.tokens.push t }

/-- One more token, and whether a key may begin after it. -/
def put (t : Token) (keys : Bool) (s : Scan) : Scan := { s.push t with keys }

/-- Ends the block collections whose columns are of a kind. None ends within a flow collection. -/
def leave (ends : Nat → Bool) (s : Scan) : Scan :=
  if s.inFlow then s
  else
    (s.columns.takeWhile ends).foldl (fun s _ => s.push .blockEnd)
      { s with columns := s.columns.dropWhile ends }

/-- Begins a block collection in a column right of those that are open. -/
def enter (column before : Nat) (t : Token) (s : Scan) : Scan :=
  if !s.inFlow && s.least ≤ column then
    { s with columns := column :: s.columns, tokens := s.tokens.insertIdxIfInBounds before t }
  else s

/-- No key has begun after all, which is wrong if one is required. -/
def noKey (s : Scan) : Option Scan :=
  if s.start.any (·.required) then none else some { s with start := none }

/-- A key that has become too long has not begun. -/
def expire (p : Place) (s : Scan) : Option Scan :=
  match s.start with
  | none => some s
  | some k => if k.reaches p then some s else s.noKey

/-- A key may begin at a place. -/
def mayBeKey (p : Place) (s : Scan) : Option Scan :=
  if s.keys then
    s.noKey.map fun s =>
      { s with start := some ⟨s.tokens.size, p, !s.inFlow && s.columns.head? = some p.column⟩ }
  else some s

/-- A mark between documents, or a directive. -/
def boundary (t : Token) (s : Scan) : Option Scan :=
  (s.leave fun _ => true).noKey.map (·.put t false)

/-- The beginning of a flow collection. -/
def openFlow (t : Token) (p : Place) (s : Scan) : Option Scan :=
  (s.mayBeKey p).map fun s =>
    { s with tokens := s.tokens.push t, start := none, outer := s.start :: s.outer, keys := true }

/-- The end of a flow collection. -/
def closeFlow (t : Token) (s : Scan) : Option Scan :=
  s.noKey.map fun s =>
    { s with tokens := s.tokens.push t, start := s.outer.head?.join, outer := s.outer.drop 1,
             keys := false }

/-- A dash, which begins a block sequence if there is none in its column. -/
def entry (p : Place) (s : Scan) : Option Scan :=
  if s.inFlow then s.noKey.map (·.put .entry true)
  else if s.keys then (s.enter p.column s.tokens.size .blockSequence).noKey.map (·.put .entry true)
  else none

/-- A question mark, which begins a block mapping if there is none in its column. -/
def key (p : Place) (s : Scan) : Option Scan :=
  if s.inFlow then s.noKey.map (·.put .key false)
  else if s.keys then (s.enter p.column s.tokens.size .blockMapping).noKey.map (·.put .key true)
  else none

/-- A colon. It makes a key of what may be one, which may begin a block mapping. -/
def value (p : Place) (s : Scan) : Option Scan :=
  match s.start with
  | some k =>
      let s := { s with start := none, tokens := s.tokens.insertIdxIfInBounds k.before .key }
      some ((s.enter k.place.column k.before .blockMapping).put .value false)
  | none =>
      if s.inFlow then some (s.put .value false)
      else if s.keys then
        some ((s.enter p.column s.tokens.size .blockMapping).put .value true)
      else none

/-- Reads the name of an anchor or an alias after its indicator. -/
def anchorName? (p : Place) : Option (String × Place) :=
  let name := p.front isNameChar
  let q := p.forward name.length
  let ended := endsWord q.rest ||
    q.rest.head?.any (· ∈ ['?', ':', ',', ']', '\x7d', '%', '@', Char.ofNat 96])
  if name.isEmpty || !ended then none else some (String.ofList name, q)

/-- Reads a scalar or a property of a node, with which a key may begin. -/
def word? (p : Place) (s : Scan) : Option (Place × Scan) := do
  let s ← s.mayBeKey p
  let q := p.forward 1
  match p.rest with
  | '*' :: _ =>
      let (name, q) ← anchorName? q
      return (q, s.put (.alias name) false)
  | '&' :: _ =>
      let (name, q) ← anchorName? q
      return (q, s.put (.anchor name) false)
  | '!' :: _ =>
      let (t, q) ← tag? s.inFlow p
      return (q, s.put (.tag t) false)
  | '\'' :: r =>
      let (text, q) ← singleQuoted [] .none q.line q.column r
      return (q, s.put (.scalar .quoted text) false)
  | '"' :: r =>
      let (text, q) ← doubleQuoted [] .none .outside q.line q.column r
      return (q, s.put (.scalar .quoted text) false)
  | r =>
      if startsPlain s.inFlow r then
        let (text, ended, q) ← plain s.inFlow s.least p
        return (q, s.put (.scalar .plain text) ended)
      else none

/-- Reads a block scalar, with which no key begins. -/
def block? (literal : Bool) (p : Place) (s : Scan) : Option (Place × Scan) := do
  let s ← s.noKey
  let (text, q) ← blockScalar literal s.least (p.forward 1)
  return (q, s.put (.scalar (if literal then .literal else .folded) text) true)

/-- Reads a token that begins at a place. -/
def next? (p : Place) (s : Scan) : Option (Place × Scan) :=
  let after (n : Nat) (s : Option Scan) : Option (Place × Scan) := s.map (p.forward n, ·)
  let alone := s.inFlow || endsWord (p.rest.drop 1)
  if p.atMark '-' then after 3 (s.boundary .documentStart)
  else if p.atMark '.' then after 3 (s.boundary .documentEnd)
  else
    match p.rest.head? with
    | some '%' =>
        if p.column = 0 then do
          let (d, q) ← directive? p
          return (q, ← s.boundary (.directive d))
        else none
    | some '[' => after 1 (s.openFlow .flowSequence p)
    | some '\x7b' => after 1 (s.openFlow .flowMapping p)
    | some ']' => after 1 (s.closeFlow .flowSequenceEnd)
    | some '\x7d' => after 1 (s.closeFlow .flowMappingEnd)
    | some ',' => after 1 (s.noKey.map (·.put .comma true))
    | some '-' => if endsWord (p.rest.drop 1) then after 1 (s.entry p) else s.word? p
    | some '?' => if alone then after 1 (s.key p) else s.word? p
    | some ':' => if alone then after 1 (s.value p) else s.word? p
    | some '|' => if s.inFlow then none else s.block? true p
    | some '>' => if s.inFlow then none else s.block? false p
    | _ => s.word? p

/-- Reads tokens to the end of the text. -/
def toEnd : Nat → Place → Scan → Option Scan
  | 0, _, _ => none
  | fuel + 1, p, s =>
      let (keys, q) := p.token s.inFlow s.keys
      match { s with keys }.expire q with
      | none => none
      | some s =>
          if q.atEnd then (s.leave fun _ => true).noKey
          else
            match (s.leave (q.column < ·)).next? q with
            | none => none
            | some (q, s) => toEnd fuel q s

end Scan

/-- The tokens of a text. Every one takes up a character at least. -/
def tokens? (text : String) : Option (List Token) :=
  if text.toList.all isPrintable then
    let p := Place.start text
    (Scan.initial.toEnd (p.rest.length + 1) p).map (·.tokens.toList)
  else none

end Terrarium.Yaml
