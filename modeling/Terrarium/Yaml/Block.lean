import Terrarium.Yaml.Scalar

namespace Terrarium.Yaml

/-- What becomes of the line breaks at the end of a block scalar: all go, one stays, or all stay. -/
inductive Chomping where
  | strip
  | clip
  | keep
deriving DecidableEq, Repr

/-- The header of a block scalar. The indentation is given by a digit, or found by looking. -/
structure BlockHeader where
  chomping : Chomping
  indentation : Option Nat

/-- The way of chomping that a character stands for. -/
def Chomping.ofChar? (c : Char) : Option Chomping :=
  if c = '-' then some .strip else if c = '+' then some .keep else none

/-- The digit of an indentation at the front, which is not zero, and how many characters it
takes. -/
def indentationAt? : List Char → Option (Option Nat × Nat)
  | [] => some (none, 0)
  | c :: _ =>
      match digit? 10 c with
      | none => some (none, 0)
      | some 0 => none
      | some n => some (some n, 1)

/-- Reads the header of a block scalar after its indicator, up to the next line. The way of chomping
and the indentation may stand in either order. -/
def blockHeader? (p : Place) : Option (BlockHeader × Place) :=
  match p.rest.head? >>= Chomping.ofChar? with
  | some chomping => do
      let (indentation, n) ← indentationAt? (p.rest.drop 1)
      return (⟨chomping, indentation⟩, ← (p.forward (1 + n)).nextLine?)
  | none => do
      let (indentation, n) ← indentationAt? p.rest
      let q := p.forward n
      match if n = 0 then none else q.rest.head? >>= Chomping.ofChar? with
      | some chomping => return (⟨chomping, indentation⟩, ← (q.forward 1).nextLine?)
      | none => return (⟨.clip, indentation⟩, ← q.nextLine?)

/-- What is met before a line of a block scalar: how many empty lines, and the widest column
reached. -/
structure Indented where
  breaks : Nat
  widest : Nat

/-- Passes over empty lines and over the spaces before the next line, up to the limit if there is
one. There a tab may not stand. -/
def skipIndentation (limit : Option Nat) (met : Indented) (line column : Nat) :
    List Char → Option (Indented × Place)
  | [] => some (⟨met.breaks, max met.widest column⟩, ⟨[], line, column⟩)
  | c :: s =>
      let within := limit.all (column < ·)
      if c = '\n' then
        skipIndentation limit ⟨met.breaks + 1, max met.widest column⟩ (line + 1) 0 s
      else if c = ' ' && within then skipIndentation limit met line (column + 1) s
      else if c = '\t' && within then none
      else some (⟨met.breaks, max met.widest column⟩, ⟨c :: s, line, column⟩)

/-- A block scalar as far as it is read: its text backwards, whether its last line has come to an
end, whether that line began with a blank, and the empty lines since. -/
structure BlockText where
  text : List Char
  ended : Bool
  blank : Bool
  breaks : Nat

/-- The text with the line breaks before a line that begins with a blank or does not. In a folded
scalar a line break between two lines that do not is a space. -/
def BlockText.joined (literal : Bool) (t : BlockText) (blank : Bool) : List Char :=
  if !literal && t.ended && !t.blank && !blank then
    if t.breaks = 0 then ' ' :: t.text else List.replicate t.breaks '\n' ++ t.text
  else List.replicate (t.ended.toNat + t.breaks) '\n' ++ t.text

/-- The whole text. -/
def BlockText.chomped (t : BlockText) (chomping : Chomping) : String :=
  let breaks :=
    match chomping with
    | .strip => 0
    | .clip => t.ended.toNat
    | .keep => t.ended.toNat + t.breaks
  String.ofList (List.replicate breaks '\n' ++ t.text).reverse

/-- Takes lines as long as they have the indentation. -/
def blockLines (literal : Bool) (indentation : Nat) :
    Nat → BlockText → Place → Option (BlockText × Place)
  | 0, _, _ => none
  | fuel + 1, t, p =>
      if p.column = indentation && !p.atEnd then
        let content := p.front (· ≠ '\n')
        let blank := content.head?.any isBlank
        let text := content.reverse ++ t.joined literal blank
        let q := p.forward content.length
        match q.rest with
        | [] => some (⟨text, false, blank, 0⟩, q)
        | _ :: s => do
            let (met, r) ← skipIndentation (some indentation) ⟨0, 0⟩ (q.line + 1) 0 s
            blockLines literal indentation fuel ⟨text, true, blank, met.breaks⟩ r
      else some (t, p)

/-- Reads a block scalar after its indicator. The indentation is counted from the collection that
the scalar stands in, whose entries begin left of the least column; if it is not given, it is the
widest column that is met before the first line, and at least the least column and one. -/
def blockScalar (literal : Bool) (least : Nat) (p : Place) : Option (String × Place) := do
  let (header, q) ← blockHeader? p
  let given := header.indentation.map (least - 1 + ·)
  let (met, r) ← skipIndentation given ⟨0, 0⟩ q.line q.column q.rest
  let indentation := given.getD (max met.widest (max least 1))
  let (t, r) ← blockLines literal indentation (r.rest.length + 1) ⟨[], false, false, met.breaks⟩ r
  return (t.chomped header.chomping, r)

end Terrarium.Yaml
