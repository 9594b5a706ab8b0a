import Terrarium.Yaml.Character

namespace Terrarium.Yaml

/-- A place in a text: what follows it, its line, and how many characters of the line stand before
it. -/
structure Place where
  rest : List Char
  line : Nat
  column : Nat

namespace Place

def start (s : String) : Place := ⟨oneBreak s.toList, 0, 0⟩

/-- The place after `n` characters of the same line. -/
def forward (p : Place) (n : Nat) : Place := ⟨p.rest.drop n, p.line, p.column + n⟩

def atEnd (p : Place) : Bool := p.rest.isEmpty

/-- Whether a line begins here with three marks that stand alone. -/
def atMark (p : Place) (mark : Char) : Bool :=
  p.column = 0 && p.rest.take 3 = [mark, mark, mark] && endsWord (p.rest.drop 3)

/-- Whether a document begins or ends here. -/
def atBoundary (p : Place) : Bool := p.atMark '-' || p.atMark '.'

/-- The characters at the front that are in a class. -/
def front (p : Place) (inClass : Char → Bool) : List Char := p.rest.takeWhile inClass

def skipBlanks (p : Place) : Place := p.forward (p.front isBlank).length

/-- The beginning of the next line, if nothing but blanks and a comment is left of this one. -/
def nextLine? (p : Place) : Option Place :=
  let q := p.skipBlanks
  let r := if q.rest.head? = some '#' then q.forward (q.front (· ≠ '\n')).length else q
  match r.rest with
  | [] => some r
  | '\n' :: s => some ⟨s, r.line + 1, 0⟩
  | _ => none

/-- Passes over blanks, line breaks and comments, and over a byte order mark at the front of a line,
which takes up a column. A tab is passed over in a flow collection and where no key may begin. A key
may begin after a line break outside of flow collections; whether it may where the gap ends comes
with the place. -/
def skipGap (flow keys comment : Bool) (line column : Nat) : List Char → Bool × Place
  | [] => (keys, ⟨[], line, column⟩)
  | c :: s =>
      if c = '\n' then skipGap flow (keys || !flow) false (line + 1) 0 s
      else if comment || c = ' ' || c = '\ufeff' && column = 0 || c = '\t' && (flow || !keys) then
        skipGap flow keys comment line (column + 1) s
      else if c = '#' then skipGap flow keys true line (column + 1) s
      else (keys, ⟨c :: s, line, column⟩)

def token (p : Place) (flow keys : Bool) : Bool × Place :=
  skipGap flow keys false p.line p.column p.rest

end Place

end Terrarium.Yaml
