namespace Terrarium.Yaml

/-- Every line break becomes a line feed. -/
def oneBreak : List Char → List Char
  | [] => []
  | '\r' :: '\n' :: s => '\n' :: oneBreak s
  | c :: s => (if c ∈ ['\r', '\u0085', '\u2028', '\u2029'] then '\n' else c) :: oneBreak s

/-- Whether a character may stand in a text. -/
def isPrintable (c : Char) : Bool :=
  c ∈ ['\t', '\n', '\r', '\u0085'] || ' ' ≤ c && c ≤ '~' || '\u00a0' ≤ c && c ≤ '\ufffd' ||
    0x10000 ≤ c.toNat

/-- Whether a character is a blank. -/
def isBlank (c : Char) : Bool := c = ' ' || c = '\t'

/-- Whether a word ends here: at a blank, a line break or the end. -/
def endsWord : List Char → Bool
  | [] => true
  | c :: _ => isBlank c || c = '\n'

/-- Whether a character may stand in the name of an anchor, of a directive or of a tag's handle. -/
def isNameChar (c : Char) : Bool := c.isAlphanum || c = '_' || c = '-'

/-- Whether a character has a meaning of its own within a flow collection. -/
def isFlowIndicator (c : Char) : Bool := c ∈ [',', '[', ']', '\x7b', '\x7d']

/-- The value of a digit in a radix of at most sixteen. -/
def digit? (radix : Nat) (c : Char) : Option Nat :=
  let value :=
    if '0' ≤ c ∧ c ≤ '9' then c.toNat - '0'.toNat
    else if 'a' ≤ c ∧ c ≤ 'f' then c.toNat - 'a'.toNat + 10
    else if 'A' ≤ c ∧ c ≤ 'F' then c.toNat - 'A'.toNat + 10
    else radix
  if value < radix then some value else none

end Terrarium.Yaml
