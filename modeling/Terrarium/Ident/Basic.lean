namespace Terrarium

/-- The name of an object. -/
structure ObjectId where
  word : UInt64
deriving DecidableEq, Repr

namespace ObjectId

/-- The identifier that never names an object. -/
def null : ObjectId := ⟨0⟩

instance : Inhabited ObjectId := ⟨null⟩

/-- Whether the identifier is the one that never names an object. -/
def isNull (id : ObjectId) : Bool := id = null

/-- The number of the identifier after a hash sign. -/
def text (id : ObjectId) : String := "#" ++ toString id.word.toNat

end ObjectId

end Terrarium
