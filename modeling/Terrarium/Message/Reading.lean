import Terrarium.Cbor.Datum
import Terrarium.Message.Basic

namespace Terrarium

open Cbor

/-- A point is an array of exactly two numbers. -/
def Point.ofDatum? (d : Datum) : Option Point := do
  match ← d.items? with
  | [x, y] => return ⟨← x.float?, ← y.float?⟩
  | _ => none

def Brush.ofDatum? (d : Datum) : Option Brush := do
  match ← d.fields? ["xc", "yc", "size", "density_map", "strength"] with
  | [xc, yc, size, density, strength] =>
      return ⟨← xc.float?, ← yc.float?, ← size.word32?,
        (← (← density.items?).mapM Datum.float?).toArray, ← strength.float?⟩
  | _ => none

def ObjectId.ofDatum? (d : Datum) : Option ObjectId := d.word?.map ObjectId.mk

namespace Operation

/-- The names of all kinds of operations. -/
def kinds : List String :=
  ["terraform_raise", "terraform_level", "terraform_smooth", "terraform_ramp", "fluid_raise",
    "fluid_source_create", "fluid_source_move", "fluid_source_set_height",
    "fluid_source_set_capacity", "fluid_source_destroy", "fluid_ocean_level_set_height",
    "fluid_reset"]

/-- An operation of a kind from the rest of its record. One without fields takes any map and the
empty array. -/
def ofDatum? (kind : String) (d : Datum) : Option Operation := do
  match kind with
  | "terraform_raise" =>
      match ← d.fields? ["brush"] with
      | [b] => return terraformRaise (← Brush.ofDatum? b)
      | _ => none
  | "terraform_level" =>
      match ← d.fields? ["brush", "reference_height"] with
      | [b, h] => return terraformLevel (← Brush.ofDatum? b) (← h.float?)
      | _ => none
  | "terraform_smooth" =>
      match ← d.fields? ["brush"] with
      | [b] => return terraformSmooth (← Brush.ofDatum? b)
      | _ => none
  | "terraform_ramp" =>
      match ← d.fields?
        ["brush", "source_point", "source_height", "destination_point", "destination_height"] with
      | [b, p, h, q, k] =>
          return terraformRamp (← Brush.ofDatum? b) (← Point.ofDatum? p) (← h.float?)
            (← Point.ofDatum? q) (← k.float?)
      | _ => none
  | "fluid_raise" =>
      match ← d.fields? ["brush"] with
      | [b] => return fluidRaise (← Brush.ofDatum? b)
      | _ => none
  | "fluid_source_create" =>
      match ← d.fields? ["object_id", "pos", "radius", "absolute_height", "capacity"] with
      | [id, p, r, h, c] =>
          return sourceCreate (← ObjectId.ofDatum? id) (← Point.ofDatum? p) (← r.float?) (← h.float?)
            (← c.float?)
      | _ => none
  | "fluid_source_move" =>
      match ← d.fields? ["object_id", "pos"] with
      | [id, p] => return sourceMove (← ObjectId.ofDatum? id) (← Point.ofDatum? p)
      | _ => none
  | "fluid_source_set_height" =>
      match ← d.fields? ["object_id", "absolute_height"] with
      | [id, h] => return sourceSetLevel (← ObjectId.ofDatum? id) (← h.float?)
      | _ => none
  | "fluid_source_set_capacity" =>
      match ← d.fields? ["object_id", "capacity"] with
      | [id, c] => return sourceSetCapacity (← ObjectId.ofDatum? id) (← c.float?)
      | _ => none
  | "fluid_source_destroy" =>
      match ← d.fields? ["object_id"] with
      | [id] => return sourceDestroy (← ObjectId.ofDatum? id)
      | _ => none
  | "fluid_ocean_level_set_height" =>
      match ← d.fields? ["height"] with
      | [h] => return oceanSetLevel (← h.float?)
      | _ => none
  | "fluid_reset" =>
      match d with
      | .map _ => return fluidReset
      | .array [] => return fluidReset
      | _ => none
  | _ => none

/-- The field that says of what kind an operation is. -/
def kindKey : String := "kind"

/-- Reads the name of a kind. -/
def kind (s : List UInt8) : Reading String :=
  match readName s with
  | some (some n, rest) => if n ∈ kinds then some (n, rest) else none
  | _ => none

/-- Reads an entry of an operation's record: its kind, or an item to be held. -/
def entry (depth : Nat) (state : Option String × Array (Datum × Datum)) (s : List UInt8) :
    Reading (Option String × Array (Datum × Datum)) :=
  match Datum.read depth s with
  | none => none
  | some (key, s) =>
      if key.isName kindKey then
        (fill state.1 kind s).map fun (k, rest) => ((k, state.2), rest)
      else (Datum.read depth s).map fun (d, rest) => ((state.1, state.2.push (key, d)), rest)

/-- Reads an element of an operation's array: the kind comes first. -/
def element (depth : Nat) (state : Option String × Array Datum) (s : List UInt8) :
    Reading (Option String × Array Datum) :=
  match state.1 with
  | none => (kind s).map fun (k, rest) => ((some k, state.2), rest)
  | some _ => (Datum.read depth s).map fun (d, rest) => ((state.1, state.2.push d), rest)

/-- Reads an operation: a map with its kind among the keys, or an array that begins with it. -/
def read (depth : Nat) (s : List UInt8) : Reading Operation :=
  match depth, pull s with
  | depth + 1, some (.map length, rest) =>
      match elements (entry depth) length (none, #[]) rest with
      | some ((some k, held), rest) =>
          (ofDatum? k (.map held.toList)).map fun op => (op, rest)
      | _ => none
  | depth + 1, some (.array length, rest) =>
      match elements (element depth) length (none, #[]) rest with
      | some ((some k, held), rest) =>
          (ofDatum? k (.array held.toList)).map fun op => (op, rest)
      | _ => none
  | _, _ => none

end Operation

def ObjectId.read (s : List UInt8) : Reading ObjectId := (readWord s).map fun (n, rest) => (⟨n⟩, rest)

namespace Rect

/-- The bounds of a rectangle found so far. -/
structure Found where
  x0 : Option UInt32
  y0 : Option UInt32
  x1 : Option UInt32
  y1 : Option UInt32

/-- Reads the value of a rectangle's key. -/
def entry (depth : Nat) (key : Option String) (f : Found) (s : List UInt8) : Reading Found :=
  match key with
  | some "x0" => (fill f.x0 readWord32 s).map fun (v, rest) => ({ f with x0 := v }, rest)
  | some "y0" => (fill f.y0 readWord32 s).map fun (v, rest) => ({ f with y0 := v }, rest)
  | some "x1" => (fill f.x1 readWord32 s).map fun (v, rest) => ({ f with x1 := v }, rest)
  | some "y1" => (fill f.y1 readWord32 s).map fun (v, rest) => ({ f with y1 := v }, rest)
  | _ => ignore depth f s

def read (depth : Nat) (s : List UInt8) : Reading Rect :=
  match record depth entry ⟨none, none, none, none⟩ s with
  | some (⟨some x0, some y0, some x1, some y1⟩, rest) => some (⟨x0, y0, x1, y1⟩, rest)
  | _ => none

end Rect

def Delta.read (depth : Nat) : List UInt8 → Reading Delta :=
  choice depth fun depth name s =>
    match name with
    | some "None" => some (.nothing, s)
    | some "Terrain" => (Rect.read depth s).map fun (r, rest) => (.terrain r, rest)
    | some "Fluid" => (Rect.read depth s).map fun (r, rest) => (.fluid r, rest)
    | some "Created" => (ObjectId.read s).map fun (id, rest) => (.created id, rest)
    | some "Updated" => (ObjectId.read s).map fun (id, rest) => (.updated id, rest)
    | some "Destroyed" => (ObjectId.read s).map fun (id, rest) => (.destroyed id, rest)
    | _ => none

def Failure.read (depth : Nat) : List UInt8 → Reading Failure :=
  choice depth fun _ name s =>
    match name with
    | some "NoSuchObject" => (ObjectId.read s).map fun (id, rest) => (.noSuchObject id, rest)
    | some "InvalidArgument" => (readText s).map fun (t, rest) => (.invalidArgument t, rest)
    | some "OutOfBounds" => some (.outOfBounds, s)
    | _ => none

def Outcome.read (depth : Nat) : List UInt8 → Reading Outcome :=
  choice depth fun depth name s =>
    match name with
    | some "Success" => (Delta.read depth s).map fun (d, rest) => (.success d, rest)
    | some "Failure" => (Failure.read depth s).map fun (e, rest) => (.failure e, rest)
    | _ => none

namespace LinkSignal

/-- Reads the value of a link signal's key. -/
def entry (depth : Nat) (key : Option String) (seq : Option UInt64) (s : List UInt8) :
    Reading (Option UInt64) :=
  match key with
  | some "seq" => fill seq readWord s
  | _ => ignore depth seq s

/-- Reads the number of a link signal: a record with it, or an array that begins with it, of which
nothing more is read. -/
def seq (depth : Nat) (s : List UInt8) : Reading UInt64 :=
  match depth, pull s with
  | depth + 1, some (.map _, _) =>
      match record (depth + 1) entry none s with
      | some (some n, rest) => some (n, rest)
      | _ => none
  | _ + 1, some (.array length, rest) => if length = some 0 then none else readWord rest
  | _, _ => none

def read (depth : Nat) : List UInt8 → Reading LinkSignal :=
  choice depth fun depth name s =>
    match name with
    | some "Ping" => (seq depth s).map fun (n, rest) => (.ping n, rest)
    | some "Pong" => (seq depth s).map fun (n, rest) => (.pong n, rest)
    | _ => none

end LinkSignal

namespace Command

/-- Reads the value of a command's key. -/
def entry (depth : Nat) (key : Option String) (f : Option UInt64 × Option Operation)
    (s : List UInt8) : Reading (Option UInt64 × Option Operation) :=
  match key with
  | some "token" => (fill f.1 readWord s).map fun (v, rest) => ((v, f.2), rest)
  | some "op" => (fill f.2 (Operation.read depth) s).map fun (v, rest) => ((f.1, v), rest)
  | _ => ignore depth f s

def read (depth : Nat) (s : List UInt8) : Reading Command :=
  match record depth entry (none, none) s with
  | some ((some token, some op), rest) => some (⟨token, op⟩, rest)
  | _ => none

end Command

namespace Response

/-- Reads the value of a response's key. -/
def entry (depth : Nat) (key : Option String) (f : Option UInt64 × Option Outcome)
    (s : List UInt8) : Reading (Option UInt64 × Option Outcome) :=
  match key with
  | some "token" => (fill f.1 readWord s).map fun (v, rest) => ((v, f.2), rest)
  | some "result" => (fill f.2 (Outcome.read depth) s).map fun (v, rest) => ((f.1, v), rest)
  | _ => ignore depth f s

def read (depth : Nat) (s : List UInt8) : Reading Response :=
  match record depth entry (none, none) s with
  | some ((some token, some outcome), rest) => some (⟨token, outcome⟩, rest)
  | _ => none

end Response

/-- How many containers may stand inside each other. -/
def nestingLimit : Nat := 256

/-- Reads the payload of a message of a class; what follows it is not looked at. -/
def Message.ofPayload? (c : MessageClass) (s : List UInt8) : Option Message :=
  match c with
  | .link => (LinkSignal.read nestingLimit s).map fun r => .link r.1
  | .command => (Command.read nestingLimit s).map fun r => .command r.1
  | .response => (Response.read nestingLimit s).map fun r => .response r.1

end Terrarium
