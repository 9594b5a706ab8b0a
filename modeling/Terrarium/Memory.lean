namespace Terrarium.Memory

/-- The length in bytes of the longest block of memory. -/
def longestBlock : Nat := 0x7fffffffffffffff

/-- Whether so many values of a width in bytes can stand in one block. -/
def holds (count width : Nat) : Bool := count * width ≤ longestBlock

end Terrarium.Memory
