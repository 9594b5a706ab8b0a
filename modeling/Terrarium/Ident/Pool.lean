import Terrarium.Ident.Basic

/-!
Pools of unused identifiers. A pool is a list of regions, ascending, disjoint and never adjacent,
so that a set of numbers has one form only. Taking a number out splits its region; giving one back
joins it with the regions it touches.
-/
namespace Terrarium

/-- The numbers `first ≤ n < first + count`. -/
structure Region where
  first : Nat
  count : Nat
deriving DecidableEq, Repr

namespace Region

/-- One past the last number. -/
def stop (r : Region) : Nat := r.first + r.count

/-- Whether a number lies in the region. -/
def Holds (r : Region) (n : Nat) : Prop := r.first ≤ n ∧ n < r.stop

instance (r : Region) (n : Nat) : Decidable (r.Holds n) := inferInstanceAs (Decidable (_ ∧ _))

/-- What is left of a region without one of its numbers: the part below and the part above, as
far as there are any. -/
def without (r : Region) (n : Nat) : List Region :=
  (if r.first < n then [⟨r.first, n - r.first⟩] else []) ++
    (if n + 1 < r.stop then [⟨n + 1, r.stop - (n + 1)⟩] else [])

end Region

/-- The unused identifiers. -/
structure Pool where
  regions : List Region
deriving DecidableEq, Repr

namespace Pool

/-- The largest word, which is never handed out. -/
def limit : Nat := UInt64.size - 1

/-- All identifiers that can ever be handed out: from one to the word before the largest. -/
def all : Pool := ⟨[⟨1, limit - 1⟩]⟩

/-- Whether a number is unused. -/
def Holds (p : Pool) (n : Nat) : Prop := ∃ r ∈ p.regions, r.Holds n

/-- Looks for a number among ascending regions, up to the first that begins above it. -/
def isFreeIn (n : Nat) : List Region → Bool
  | [] => false
  | r :: rest => if n < r.first then false else if n < r.stop then true else isFreeIn n rest

def isFree (p : Pool) (n : Nat) : Bool := isFreeIn n p.regions

def size (p : Pool) : Nat := p.regions.foldr (fun r n => r.count + n) 0

/-- Takes the least unused number, if there is one. -/
def takeLeast? (p : Pool) : Option (Nat × Pool) :=
  match p.regions with
  | [] => none
  | r :: rest => some (r.first, ⟨r.without r.first ++ rest⟩)

/-- Takes a number out of ascending regions. -/
def takeIn? (n : Nat) : List Region → Option (List Region)
  | [] => none
  | r :: rest =>
      if n < r.first then none
      else if n < r.stop then some (r.without n ++ rest)
      else (takeIn? n rest).map (r :: ·)

/-- Takes a chosen number, if it is unused. -/
def take? (p : Pool) (n : Nat) : Option Pool := (takeIn? n p.regions).map Pool.mk

/-- Puts a region before ascending regions that lie above it, joining it with the first of them if
they touch. -/
def joinFront (r : Region) : List Region → List Region
  | [] => [r]
  | next :: rest =>
      if r.stop = next.first then ⟨r.first, r.count + next.count⟩ :: rest else r :: next :: rest

/-- Gives a number back to ascending regions; one that is there already changes nothing. -/
def giveIn (n : Nat) : List Region → List Region
  | [] => [⟨n, 1⟩]
  | r :: rest =>
      if n < r.first then joinFront ⟨n, 1⟩ (r :: rest)
      else if n < r.stop then r :: rest
      else if n = r.stop then joinFront ⟨r.first, r.count + 1⟩ rest
      else r :: giveIn n rest

/-- Gives a number back. Zero and the largest word were never handed out and change nothing. -/
def give (p : Pool) (n : Nat) : Pool :=
  if n = 0 ∨ limit ≤ n then p else ⟨giveIn n p.regions⟩

/-- A number in sixteen hexadecimal digits. -/
def hexText (n : Nat) : String :=
  let digits := String.ofList (Nat.toDigits 16 n)
  "0x" ++ "".pushn '0' (16 - digits.length) ++ digits

/-- A number in at least three places, with blanks in front. -/
def placeText (n : Nat) : String :=
  let digits := toString n
  "".pushn ' ' (3 - digits.length) ++ digits

/-- The lines of the listing, from a line number on. -/
def listingFrom (line : Nat) : List Region → String
  | [] => ""
  | r :: rest =>
      "entry " ++ placeText line ++ "  first = " ++ hexText r.first ++
        "  count = " ++ hexText r.count ++ "\n" ++ listingFrom (line + 1) rest

/-- A listing of the regions, one on each line. -/
def listing (p : Pool) : String := listingFrom 0 p.regions

end Pool

end Terrarium
