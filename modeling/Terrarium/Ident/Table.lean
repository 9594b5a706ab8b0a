import Terrarium.Ident.Pool

/-!
The table of objects. It maps identifiers to objects and owns the pool of unused identifiers;
slots come in chunks, and a chunk is set aside as soon as one of its identifiers holds an object.
-/
namespace Terrarium

/-- Objects know the identifier they were made for. -/
class Identified (α : Type) where
  ident : α → ObjectId

/-- Why an object could not be stored. -/
inductive StoreError where
  | nullId
  | idInUse (id : ObjectId)
  | exhausted
deriving DecidableEq, Repr

/-- The wording of a store error. -/
def StoreError.message : StoreError → String
  | .nullId => "the null object id cannot hold an object"
  | .idInUse id => "object id " ++ id.text ++ " is already in use"
  | .exhausted => "object id space exhausted"

/-- Objects by identifier, the greatest first, with the pool of unused identifiers, the count of
objects and the chunks set aside so far. -/
structure Table (α : Type) where
  slots : List (ObjectId × α)
  pool : Pool
  live : Nat
  chunks : List Nat

namespace Table

variable {α β : Type}

/-- The number of slots in a chunk. -/
def chunkSize : Nat := 4096

def empty : Table α := ⟨[], Pool.all, 0, []⟩

/-- Looks an identifier up among descending ones. -/
def lookup (id : ObjectId) : List (ObjectId × α) → Option α
  | [] => none
  | (k, a) :: rest =>
      if k.word < id.word then none else if k = id then some a else lookup id rest

/-- Stores at an identifier, replacing what was there and keeping the order. -/
def insertSlot (id : ObjectId) (a : α) : List (ObjectId × α) → List (ObjectId × α)
  | [] => [(id, a)]
  | (k, b) :: rest =>
      if k.word < id.word then (id, a) :: (k, b) :: rest
      else if k = id then (id, a) :: rest
      else (k, b) :: insertSlot id a rest

/-- Clears the slot of an identifier. -/
def eraseSlot (id : ObjectId) : List (ObjectId × α) → List (ObjectId × α)
  | [] => []
  | (k, b) :: rest => if k = id then rest else (k, b) :: eraseSlot id rest

/-- The object stored under an identifier. -/
def get? (t : Table α) (id : ObjectId) : Option α := lookup id t.slots

/-- The object stored under an identifier, if it is of a certain kind. -/
def getAs? (t : Table α) (kind : α → Option β) (id : ObjectId) : Option β :=
  (t.get? id).bind kind

def size (t : Table α) : Nat := t.live

def isEmpty (t : Table α) : Bool := t.live = 0

def isFree (t : Table α) (id : ObjectId) : Bool := t.pool.isFree id.word.toNat

def freeCount (t : Table α) : Nat := t.pool.size

/-- The identifiers that the objects report, from the least slot up. -/
def ids [Identified α] (t : Table α) : List ObjectId :=
  (t.slots.map fun s => Identified.ident s.2).reverse

/-- The chunk of an identifier other than the null one. -/
def chunkOf (id : ObjectId) : Nat := (id.word.toNat - 1) / chunkSize

/-- Stores an object under an identifier, setting its chunk aside. -/
def put (t : Table α) (id : ObjectId) (a : α) : Table α where
  slots := insertSlot id a t.slots
  pool := t.pool
  live := if (t.get? id).isSome then t.live else t.live + 1
  chunks := if chunkOf id ∈ t.chunks then t.chunks else chunkOf id :: t.chunks

def takeId? (t : Table α) : Option (ObjectId × Table α) :=
  t.pool.takeLeast?.map fun (n, pool) => (⟨UInt64.ofNat n⟩, { t with pool })

/-- Gives an identifier back; the null one, the largest one and unused ones change nothing. -/
def giveId (t : Table α) (id : ObjectId) : Table α :=
  { t with pool := t.pool.give id.word.toNat }

/-- Makes an object under the least unused identifier. -/
def create (t : Table α) (make : ObjectId → α) : Except StoreError (ObjectId × Table α) :=
  match t.takeId? with
  | none => .error .exhausted
  | some (id, t) => .ok (id, t.put id (make id))

/-- Makes an object under a chosen identifier, which has to be unused; for the null identifier
under the least unused one. -/
def createAt (t : Table α) (id : ObjectId) (make : ObjectId → α) :
    Except StoreError (ObjectId × Table α) :=
  if id.isNull then t.create make
  else
    match t.pool.take? id.word.toNat with
    | none => .error (.idInUse id)
    | some pool => .ok (id, { t with pool }.put id (make id))

/-- Stores an object under the identifier it reports, replacing what was there. The pool is left
alone. -/
def store [Identified α] (t : Table α) (a : α) : Except StoreError (Table α) :=
  let id := Identified.ident a
  if id.isNull then .error .nullId else .ok (t.put id a)

/-- Changes the object under an identifier. -/
def update (t : Table α) (id : ObjectId) (f : α → α) : Table α :=
  match t.get? id with
  | none => t
  | some a => { t with slots := insertSlot id (f a) t.slots }

/-- Removes the object under an identifier and gives the identifier back. Without an object there
nothing changes. -/
def kill (t : Table α) (id : ObjectId) : Bool × Table α :=
  if (t.get? id).isSome then
    (true, { t with slots := eraseSlot id t.slots, live := t.live - 1 }.giveId id)
  else (false, t)

def summary (t : Table α) : String :=
  "ObjectManager \x7b chunks: " ++ toString t.chunks.length ++ ", live: " ++ toString t.live ++
    ", free_regions: " ++ toString t.pool.regions.length ++ " \x7d"

end Table

end Terrarium
