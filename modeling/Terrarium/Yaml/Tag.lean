import Terrarium.Yaml.Place

namespace Terrarium.Yaml

/-- Whether a character stands for itself in a tag; some flow indicators do so in a whole one. -/
def isTagChar (whole : Bool) (c : Char) : Bool :=
  isNameChar c ||
    c ∈ [';', '/', '?', ':', '@', '&', '=', '+', '$', '.', '!', '~', '*', '\'', '(', ')'] ||
    whole && c ∈ [',', '[', ']']

/-- How many octets follow the first one of a character. -/
def octetsAfter? (octet : Nat) : Option Nat :=
  if octet < 0x80 then some 0
  else if octet / 0x20 = 6 then some 1
  else if octet / 0x10 = 14 then some 2
  else if octet / 8 = 30 then some 3
  else none

/-- Reads the octets of a tag, of which a percent sign and two digits stand for one. After the first
octet of a character so many others are missing. -/
def tagOctets (whole : Bool) (missing line column : Nat) : List Char → Option (List Char × Place)
  | '%' :: a :: b :: s => do
      let octet := 16 * (← digit? 16 a) + (← digit? 16 b)
      let missing ←
        if missing = 0 then octetsAfter? octet
        else if octet / 0x40 = 2 then some (missing - 1)
        else none
      let (octets, p) ← tagOctets whole missing line (column + 3) s
      return (Char.ofNat octet :: octets, p)
  | c :: s =>
      if 0 < missing || c = '%' then none
      else if isTagChar whole c then do
        let (octets, p) ← tagOctets whole 0 line (column + 1) s
        return (c :: octets, p)
      else some ([], ⟨c :: s, line, column⟩)
  | [] => if missing = 0 then some ([], ⟨[], line, column⟩) else none

/-- Reads a part of a tag. -/
def tagPart (whole : Bool) (p : Place) : Option (List Char × Place) :=
  tagOctets whole 0 p.line p.column p.rest

/-- The text that octets stand for; a zero ends it. -/
def textOfOctets (octets : List Char) : String := String.ofList (octets.takeWhile (· ≠ '\x00'))

/-- A tag as it is written: whole, or as a handle and what follows it. -/
inductive Tag where
  | whole (text : String)
  | short (handle rest : String)
deriving DecidableEq

/-- A name between exclamation marks, the second of which may be missing. -/
def handleName (p : Place) : List Char × Place :=
  let q := p.forward 1
  let name := q.front isNameChar
  (name, q.forward name.length)

/-- Reads a tag after the two characters that begin a whole one. -/
def wholeTag? (p : Place) : Option (Tag × Place) := do
  let (octets, q) ← tagPart true p
  if octets.isEmpty || q.rest.head? ≠ some '>' then none
  else return (.whole (textOfOctets octets), q.forward 1)

/-- Reads a tag with a handle. One mark alone is a tag of its own. -/
def shortTag? (p : Place) : Option (Tag × Place) := do
  let (name, q) := handleName p
  if q.rest.head? = some '!' then
    let (octets, r) ← tagPart false (q.forward 1)
    if octets.isEmpty then none
    else return (.short (String.ofList ('!' :: name ++ ['!'])) (textOfOctets octets), r)
  else
    let (octets, r) ← tagPart false q
    let rest := textOfOctets (name ++ octets)
    return (if rest.isEmpty then .whole "!" else .short "!" rest, r)

/-- Reads a tag; a blank or a line break follows it, or a comma in a flow collection. -/
def tag? (flow : Bool) (p : Place) : Option (Tag × Place) := do
  let (t, q) ← if p.rest.take 2 = ['!', '<'] then wholeTag? (p.forward 2) else shortTag? p
  if endsWord q.rest || flow && q.rest.head? = some ',' then return (t, q) else none

/-- What is said before a document: its version, or what a handle stands for. -/
inductive Directive where
  | version (major minor : Nat)
  | handle (name stands : String)
deriving DecidableEq

/-- Reads a number of a version, which has at most nine digits. -/
def versionNumber? (p : Place) : Option (Nat × Place) :=
  let digits := p.front Char.isDigit
  if digits.isEmpty || 9 < digits.length then none
  else some (digits.foldl (fun n c => 10 * n + (c.toNat - '0'.toNat)) 0, p.forward digits.length)

def version? (p : Place) : Option (Directive × Place) := do
  let (major, q) ← versionNumber? p
  if q.rest.head? = some '.' then
    let (minor, r) ← versionNumber? (q.forward 1)
    return (.version major minor, r)
  else none

/-- Reads a handle, which one mark alone is too, and after blanks what it stands for. -/
def standsFor? (p : Place) : Option (Directive × Place) :=
  if p.rest.head? = some '!' then do
    let (name, q) := handleName p
    let (handle, q) ←
      if q.rest.head? = some '!' then some ('!' :: name ++ ['!'], q.forward 1)
      else if name.isEmpty then some (['!'], q)
      else none
    let (octets, r) ← tagPart true q.skipBlanks
    if !q.rest.head?.any isBlank || octets.isEmpty || !endsWord r.rest then none
    else return (.handle (String.ofList handle) (textOfOctets octets), r)
  else none

/-- Reads a directive, to the end of its line. -/
def directive? (p : Place) : Option (Directive × Place) := do
  let name := (p.forward 1).front isNameChar
  let q := p.forward (1 + name.length)
  if !endsWord q.rest then none
  else
    let (d, r) ←
      match String.ofList name with
      | "YAML" => version? q.skipBlanks
      | "TAG" => standsFor? q.skipBlanks
      | _ => none
    return (d, ← r.nextLine?)

/-- What handles stand for in a document. -/
structure Handles where
  given : List (String × String)

/-- What a handle stands for, if it is known; two are known unless they are given otherwise. -/
def Handles.lookup? (h : Handles) (name : String) : Option String :=
  (h.given ++ [("!", "!"), ("!!", "tag:yaml.org,2002:")]).lookup name

/-- The whole text of a tag, if its handle is known. -/
def Handles.text? (h : Handles) : Tag → Option String
  | .whole text => some text
  | .short handle rest => (h.lookup? handle).map (· ++ rest)

end Terrarium.Yaml
