import Terrarium.Yaml.Place

namespace Terrarium.Yaml

/-- How a scalar is written. -/
inductive Style where
  | plain
  | quoted
  | literal
  | folded
deriving DecidableEq, Repr

/-- What stands between two parts of a scalar: blanks, held backwards, or line breaks. Of those the
first is folded or escaped, and `more` are kept. -/
inductive Gap where
  | blanks (backwards : List Char)
  | breaks (escaped : Bool) (more : Nat)

namespace Gap

def none : Gap := .blanks []

def isNone : Gap → Bool
  | .blanks bs => bs.isEmpty
  | .breaks .. => false

def hasBreak : Gap → Bool
  | .blanks _ => false
  | .breaks .. => true

/-- One more blank; at the front of a line it counts for nothing. -/
def blank (c : Char) : Gap → Gap
  | .blanks bs => .blanks (c :: bs)
  | .breaks escaped more => .breaks escaped more

/-- One more line break; blanks before the first count for nothing. -/
def lineBreak : Gap → Gap
  | .blanks _ => .breaks false 0
  | .breaks escaped more => .breaks escaped (more + 1)

/-- The gap at the end of a text, which is held backwards. A single line break folds to a space. -/
def onto (text : List Char) : Gap → List Char
  | .blanks bs => bs ++ text
  | .breaks escaped more =>
      if more = 0 && !escaped then ' ' :: text else List.replicate more '\n' ++ text

end Gap

/-- Whether a plain scalar can begin here. -/
def startsPlain (flow : Bool) : List Char → Bool
  | [] => false
  | c :: s =>
      if c = '-' then !endsWord s
      else if c = '?' || c = ':' then !flow && !endsWord s
      else !isFlowIndicator c &&
        c ∉ [' ', '\t', '\n', '#', '&', '*', '!', '|', '>', '\'', '"', '%', '@', Char.ofNat 96]

/-- Reads a plain scalar. It ends at a comment, at a colon that ends a word, in a flow collection at
an indicator, outside of one at a line that does not reach the least column, and at a document's
boundary. No tab stands left of the least column. Whether a line ended after the scalar comes with
it. -/
def plainFrom (flow : Bool) (least : Nat) (text : List Char) (gap : Gap) (line column : Nat) :
    List Char → Option (String × Bool × Place)
  | [] => some (String.ofList text.reverse, gap.hasBreak, ⟨[], line, column⟩)
  | c :: s =>
      if c = '\n' then plainFrom flow least text gap.lineBreak (line + 1) 0 s
      else if isBlank c then
        if c = '\t' && gap.hasBreak && column < least then none
        else plainFrom flow least text (gap.blank c) line (column + 1) s
      else if gap.hasBreak && !flow && column < least ||
          (Place.mk (c :: s) line column).atBoundary || c = '#' && !gap.isNone then
        some (String.ofList text.reverse, gap.hasBreak, ⟨c :: s, line, column⟩)
      else if flow && c = ':' && (s.take 1).any (fun d => isFlowIndicator d || d = '?') then none
      else if c = ':' && endsWord s || flow && isFlowIndicator c then
        some (String.ofList text.reverse, gap.hasBreak, ⟨c :: s, line, column⟩)
      else plainFrom flow least (c :: gap.onto text) .none line (column + 1) s

/-- Reads a plain scalar from its first character on. -/
def plain (flow : Bool) (least : Nat) (p : Place) : Option (String × Bool × Place) :=
  plainFrom flow least [] .none p.line p.column p.rest

/-- Whether a line of a quoted scalar may begin here. -/
def continues (s : List Char) : Bool := !(Place.mk s 0 0).atBoundary

/-- Reads a scalar in single quotes after the first; a doubled quote stands for one. -/
def singleQuoted (text : List Char) (gap : Gap) (line column : Nat) :
    List Char → Option (String × Place)
  | [] => none
  | '\'' :: '\'' :: s => singleQuoted ('\'' :: gap.onto text) .none line (column + 2) s
  | '\'' :: s => some (String.ofList (gap.onto text).reverse, ⟨s, line, column + 1⟩)
  | c :: s =>
      if c = '\n' then
        if continues s then singleQuoted text gap.lineBreak (line + 1) 0 s else none
      else if isBlank c then singleQuoted text (gap.blank c) line (column + 1) s
      else singleQuoted (c :: gap.onto text) .none line (column + 1) s

/-- How far an escape in double quotes has been read. -/
inductive Escape where
  | outside
  | begun
  | digits (missing value : Nat)

/-- The character that a letter after a backslash stands for. -/
def escaped? (c : Char) : Option Char :=
  ([('0', '\x00'), ('a', '\x07'), ('b', '\x08'), ('t', '\t'), ('\t', '\t'), ('n', '\n'),
    ('v', '\x0b'), ('f', '\x0c'), ('r', '\r'), ('e', '\x1b'), (' ', ' '), ('"', '"'), ('/', '/'),
    ('\\', '\\'), ('N', '\u0085'), ('_', '\u00a0'), ('L', '\u2028'), ('P', '\u2029')].find?
      fun e => e.1 = c).map Prod.snd

/-- How many hexadecimal digits follow a letter after a backslash. -/
def digitsAfter? (c : Char) : Option Nat :=
  if c = 'x' then some 2 else if c = 'u' then some 4 else if c = 'U' then some 8 else none

/-- The character with a number, if there is one. -/
def char? (n : Nat) : Option Char := if n.isValidChar then some (Char.ofNat n) else none

/-- Reads a scalar in double quotes after the first. A line break after a backslash leaves
nothing. -/
def doubleQuoted (text : List Char) (gap : Gap) (escape : Escape) (line column : Nat) :
    List Char → Option (String × Place)
  | [] => none
  | c :: s =>
      match escape with
      | .outside =>
          if c = '"' then some (String.ofList (gap.onto text).reverse, ⟨s, line, column + 1⟩)
          else if c = '\\' then doubleQuoted (gap.onto text) .none .begun line (column + 1) s
          else if c = '\n' then
            if continues s then doubleQuoted text gap.lineBreak .outside (line + 1) 0 s else none
          else if isBlank c then doubleQuoted text (gap.blank c) .outside line (column + 1) s
          else doubleQuoted (c :: gap.onto text) .none .outside line (column + 1) s
      | .begun =>
          if c = '\n' then
            if continues s then doubleQuoted text (.breaks true 0) .outside (line + 1) 0 s else none
          else
            match escaped? c, digitsAfter? c with
            | some d, _ => doubleQuoted (d :: text) .none .outside line (column + 1) s
            | none, some missing => doubleQuoted text .none (.digits missing 0) line (column + 1) s
            | none, none => none
      | .digits missing value =>
          match digit? 16 c with
          | none => none
          | some d =>
              let value := 16 * value + d
              if missing ≤ 1 then
                match char? value with
                | none => none
                | some e => doubleQuoted (e :: text) .none .outside line (column + 1) s
              else doubleQuoted text .none (.digits (missing - 1) value) line (column + 1) s

end Terrarium.Yaml
