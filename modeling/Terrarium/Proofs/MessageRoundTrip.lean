import Terrarium.Message.Reading
import Terrarium.Message.Written
import Terrarium.Proofs.DatumRoundTrip

namespace Terrarium

open Cbor

def Point.datum (p : Point) : Datum := .array [.float p.x, .float p.y]

theorem Point.restores (depth : Nat) (p : Point) :
    Restores (Datum.read (depth + 1)) p.written p.datum :=
  Datum.restores_array (.cons (Datum.restores_float depth p.x)
    (.cons (Datum.restores_float depth p.y) .nil))

theorem Point.ofDatum?_datum (p : Point) : Point.ofDatum? p.datum = some p := rfl

def ObjectId.datum (id : ObjectId) : Datum := .unsigned id.word

theorem ObjectId.restores_datum (depth : Nat) (id : ObjectId) :
    Restores (Datum.read depth) id.written id.datum :=
  Datum.restores_unsigned depth id.word

theorem ObjectId.ofDatum?_datum (id : ObjectId) : ObjectId.ofDatum? id.datum = some id := rfl

namespace Brush

def writtenFields (b : Brush) : List (String × List UInt8) :=
  [("xc", writeFloat b.xc), ("yc", writeFloat b.yc), ("size", writeUnsigned b.size.toNat),
    ("density_map", writeArray (b.density.toList.map writeFloat)),
    ("strength", writeFloat b.strength)]

/-- The trees of a brush's parts. -/
def data (b : Brush) : List (String × Datum) :=
  [("xc", .float b.xc), ("yc", .float b.yc), ("size", .unsigned b.size.toUInt64),
    ("density_map", .array (b.density.toList.map .float)), ("strength", .float b.strength)]

def datum (b : Brush) : Datum := .record b.data

theorem holds (depth : Nat) (b : Brush) :
    List.Forall₂ (Datum.Holds (depth + 1)) b.writtenFields b.data := by
  have hdensity : List.Forall₂ (Restores (Datum.read depth)) (b.density.toList.map writeFloat)
      (b.density.toList.map .float) :=
    List.forall₂_map_left_iff.mpr (List.forall₂_map_right_iff.mpr
      (List.forall₂_same.mpr fun x _ => Datum.restores_float depth x))
  have hfloat := Datum.restores_float (depth + 1)
  exact .cons ⟨rfl, hfloat b.xc⟩ (.cons ⟨rfl, hfloat b.yc⟩
    (.cons ⟨rfl, Datum.restores_unsigned (depth + 1) b.size.toUInt64⟩
    (.cons ⟨rfl, Datum.restores_array hdensity⟩ (.cons ⟨rfl, hfloat b.strength⟩ .nil))))

theorem restores (depth : Nat) (b : Brush) :
    Restores (Datum.read (depth + 2)) b.written b.datum :=
  Datum.restores_record (b.holds depth)

theorem ofDatum?_datum (b : Brush) : Brush.ofDatum? b.datum = some b := by
  have hnames : (b.data.map Prod.fst).Nodup := by simp [data]
  have hfields : b.datum.fields? ["xc", "yc", "size", "density_map", "strength"] =
      some (b.data.map Prod.snd) := Datum.fields?_record hnames
  have hdensity : (b.density.toList.map Datum.float).mapM Datum.float? = some b.density.toList := by
    rw [List.mapM_map]
    exact (mapM_of_some (g := id) fun _ _ => rfl).trans (congrArg some (List.map_id _))
  have hsize : (Datum.unsigned b.size.toUInt64).word32? = some b.size := by
    rw [Datum.word32?, UInt32.toNat_toUInt64, if_pos b.size.toNat_lt, UInt32.ofNat_toNat]
  rw [Brush.ofDatum?, hfields]
  simp [data, hsize, hdensity, Datum.float?, Datum.items?]

end Brush

namespace Operation

/-- The trees of an operation's fields. -/
def data : Operation → List (String × Datum)
  | terraformRaise b => [("brush", b.datum)]
  | terraformLevel b reference => [("brush", b.datum), ("reference_height", .float reference)]
  | terraformSmooth b => [("brush", b.datum)]
  | terraformRamp b start startHeight stop stopHeight =>
      [("brush", b.datum), ("source_point", start.datum), ("source_height", .float startHeight),
        ("destination_point", stop.datum), ("destination_height", .float stopHeight)]
  | fluidRaise b => [("brush", b.datum)]
  | sourceCreate id pos radius level capacity =>
      [("object_id", id.datum), ("pos", pos.datum), ("radius", .float radius),
        ("absolute_height", .float level), ("capacity", .float capacity)]
  | sourceMove id pos => [("object_id", id.datum), ("pos", pos.datum)]
  | sourceSetLevel id level => [("object_id", id.datum), ("absolute_height", .float level)]
  | sourceSetCapacity id capacity => [("object_id", id.datum), ("capacity", .float capacity)]
  | sourceDestroy id => [("object_id", id.datum)]
  | oceanSetLevel level => [("height", .float level)]
  | fluidReset => []

theorem holds (depth : Nat) (op : Operation) :
    List.Forall₂ (Datum.Holds (depth + 2)) op.writtenFields op.data := by
  have hbrush (b : Brush) := b.restores depth
  have hid (id : ObjectId) := id.restores_datum (depth + 2)
  have hpoint (p : Point) := p.restores (depth + 1)
  have hfloat (x : Float32) := Datum.restores_float (depth + 2) x
  cases op with
  | terraformRaise b => exact .cons ⟨rfl, hbrush b⟩ .nil
  | terraformLevel b reference =>
      exact .cons ⟨rfl, hbrush b⟩ (.cons ⟨rfl, hfloat reference⟩ .nil)
  | terraformSmooth b => exact .cons ⟨rfl, hbrush b⟩ .nil
  | terraformRamp b start startHeight stop stopHeight =>
      exact .cons ⟨rfl, hbrush b⟩ (.cons ⟨rfl, hpoint start⟩ (.cons ⟨rfl, hfloat startHeight⟩
        (.cons ⟨rfl, hpoint stop⟩ (.cons ⟨rfl, hfloat stopHeight⟩ .nil))))
  | fluidRaise b => exact .cons ⟨rfl, hbrush b⟩ .nil
  | sourceCreate id pos radius level capacity =>
      exact .cons ⟨rfl, hid id⟩ (.cons ⟨rfl, hpoint pos⟩ (.cons ⟨rfl, hfloat radius⟩
        (.cons ⟨rfl, hfloat level⟩ (.cons ⟨rfl, hfloat capacity⟩ .nil))))
  | sourceMove id pos => exact .cons ⟨rfl, hid id⟩ (.cons ⟨rfl, hpoint pos⟩ .nil)
  | sourceSetLevel id level => exact .cons ⟨rfl, hid id⟩ (.cons ⟨rfl, hfloat level⟩ .nil)
  | sourceSetCapacity id capacity => exact .cons ⟨rfl, hid id⟩ (.cons ⟨rfl, hfloat capacity⟩ .nil)
  | sourceDestroy id => exact .cons ⟨rfl, hid id⟩ .nil
  | oceanSetLevel level => exact .cons ⟨rfl, hfloat level⟩ .nil
  | fluidReset => exact .nil

theorem ofDatum?_record (op : Operation) : ofDatum? op.name (.record op.data) = some op := by
  have hnames : (op.data.map Prod.fst).Nodup := by cases op <;> simp [data]
  have hfields := Datum.fields?_record hnames
  cases op
  case fluidReset => rfl
  all_goals
    simp only [data, List.map_cons, List.map_nil] at hfields
    simp [ofDatum?, name, data, hfields, Brush.ofDatum?_datum, Point.ofDatum?_datum,
      ObjectId.ofDatum?_datum, Datum.float?]

theorem restores_kind (op : Operation) : Restores kind (writeText op.name) op.name := by
  have hkind : op.name ∈ kinds := by cases op <;> simp [name, kinds]
  have hshort : ∀ k ∈ kinds, k.utf8ByteSize ≤ nameLimit := by decide
  intro _ rest
  rw [kind, readName_writeText (hshort _ hkind)]
  exact if_pos hkind

theorem restores_kindEntry (depth : Nat) (op : Operation) :
    Restores (entry depth (none, #[])) (writeEntry (kindKey, writeText op.name))
      (some op.name, #[]) := by
  intro hlength rest
  obtain ⟨hkey, hname⟩ := length_lt_of_append hlength
  have hread := Datum.restores_text depth kindKey hkey (writeText op.name ++ rest)
  have hkind := restores_fill op.restores_kind hname rest
  have hself : (Datum.text kindKey).isName kindKey = true := decide_eq_true (Eq.refl kindKey)
  rw [writeEntry, List.append_assoc]
  simp only [entry, hread, hself, if_true, hkind, Option.map_some]

theorem restores_heldEntry {depth : Nat} {k : Option String} {acc : Array (Datum × Datum)}
    {f : String × List UInt8} {d : String × Datum} (hother : f.1 ≠ kindKey)
    (h : Datum.Holds depth f d) :
    Restores (entry depth (k, acc)) (writeEntry f) (k, acc.push (.text d.1, d.2)) := by
  intro hlength rest
  obtain ⟨hkey, hvalue⟩ := h.reads hlength rest
  have hheld : (Datum.text d.1).isName kindKey = false := by
    rw [h.name]
    exact decide_eq_false hother
  simp only [entry, hkey, hheld, Bool.false_eq_true, if_false, hvalue, Option.map_some]

theorem foldl_hold (k : Option String) (acc : Array (Datum × Datum)) (data : List (String × Datum)) :
    data.foldl (fun state d => (state.1, state.2.push (.text d.1, d.2))) (k, acc) =
      (k, acc ++ (data.map fun d => (.text d.1, d.2)).toArray) := by
  have hpush : data.foldl (fun state d => (state.1, state.2.push (.text d.1, d.2))) (k, acc) =
      (k, data.foldl (fun acc d => acc.push (.text d.1, d.2)) acc) :=
    List.foldl_hom (fun acc => (k, acc)) fun _ _ => rfl
  rw [hpush, List.foldl_push_eq_append]

theorem restores (depth : Nat) (op : Operation) : Restores (read (depth + 3)) op.written op := by
  have hkeys : ∀ f ∈ op.writtenFields, f.1 ≠ kindKey := by
    cases op <;> simp [writtenFields, kindKey]
  -- A field whose name is the kind's would be read as a second kind.
  have hfields := List.forall₂_and_left _ _ |>.mpr ⟨hkeys, op.holds depth⟩
  have hsteps : Steps (entry (depth + 2)) (none, #[])
      ((("kind", writeText op.name) :: op.writtenFields).map writeEntry) _ :=
    .cons (op.restores_kindEntry (depth + 2))
      (.of_forall₂ (fun state f d hfield => restores_heldEntry hfield.1 hfield.2) hfields _)
  rw [foldl_hold, Array.empty_append] at hsteps
  intro hlength rest
  have hpull : pull (op.written ++ rest) = _ := pull_writeRecord hlength rest
  rw [written, writeRecord_eq] at hlength
  have helements := hsteps.restores_times (length_lt_of_append hlength).2 rest
  rw [List.length_map] at helements
  simp only [read, hpull, elements, helements]
  exact congrArg (Option.map fun op => (op, rest)) op.ofDatum?_record

end Operation

theorem ObjectId.restores (id : ObjectId) : Restores ObjectId.read id.written id :=
  (restores_word id.word).map ObjectId.mk

theorem Rect.restores (depth : Nat) (r : Rect) : Restores (Rect.read (depth + 1)) r.written r := by
  have hbound (v : UInt32) := restores_fill (restores_word32 v)
  have hrecord : Restores (record (depth + 1) entry ⟨none, none, none, none⟩) r.written
      ⟨some r.x0, some r.y0, some r.x1, some r.y1⟩ :=
    restores_record
      (.cons (restores_entry (by decide) ((hbound r.x0).map fun v => Found.mk v none none none))
      (.cons (restores_entry (by decide)
        ((hbound r.y0).map fun v => Found.mk (some r.x0) v none none))
      (.cons (restores_entry (by decide)
        ((hbound r.x1).map fun v => Found.mk (some r.x0) (some r.y0) v none))
      (.cons (restores_entry (by decide)
        ((hbound r.y1).map fun v => Found.mk (some r.x0) (some r.y0) (some r.x1) v))
      (.nil _)))))
  intro hlength rest
  rw [read, hrecord hlength]

theorem Delta.restores (depth : Nat) (d : Delta) : Restores (Delta.read (depth + 2)) d.written d := by
  cases d with
  | nothing => exact restores_bareChoice (by decide) fun _ _ => rfl
  | terrain r => exact restores_choice (by decide) ((r.restores depth).map Delta.terrain)
  | fluid r => exact restores_choice (by decide) ((r.restores depth).map Delta.fluid)
  | created id => exact restores_choice (by decide) (id.restores.map Delta.created)
  | updated id => exact restores_choice (by decide) (id.restores.map Delta.updated)
  | destroyed id => exact restores_choice (by decide) (id.restores.map Delta.destroyed)

theorem Failure.restores (depth : Nat) (e : Failure) :
    Restores (Failure.read (depth + 1)) e.written e := by
  cases e with
  | noSuchObject id => exact restores_choice (by decide) (id.restores.map Failure.noSuchObject)
  | invalidArgument t =>
      exact restores_choice (by decide) ((restores_text t).map Failure.invalidArgument)
  | outOfBounds => exact restores_bareChoice (by decide) fun _ _ => rfl

theorem Outcome.restores (depth : Nat) (o : Outcome) :
    Restores (Outcome.read (depth + 3)) o.written o := by
  cases o with
  | success d => exact restores_choice (by decide) ((d.restores depth).map Outcome.success)
  | failure e => exact restores_choice (by decide) ((e.restores (depth + 1)).map Outcome.failure)

namespace LinkSignal

theorem restores_seq (depth : Nat) (n : UInt64) :
    Restores (seq (depth + 1)) (writeRecord [("seq", writeUnsigned n.toNat)]) n := by
  have hrecord : Restores (record (depth + 1) entry none)
      (writeRecord [("seq", writeUnsigned n.toNat)]) (some n) :=
    restores_record (.cons (restores_entry (by decide) (restores_fill (restores_word n))) (.nil _))
  intro hlength rest
  have hpull := pull_writeRecord hlength rest
  simp only [seq, hpull, hrecord hlength]

theorem restores (depth : Nat) (l : LinkSignal) : Restores (read (depth + 2)) l.written l := by
  cases l with
  | ping n => exact restores_choice (by decide) ((restores_seq depth n).map ping)
  | pong n => exact restores_choice (by decide) ((restores_seq depth n).map pong)

end LinkSignal

theorem Command.restores (depth : Nat) (c : Command) :
    Restores (Command.read (depth + 4)) c.written c := by
  have htoken := restores_fill (restores_word c.token)
  have hop := restores_fill (c.op.restores depth)
  have hrecord : Restores (record (depth + 4) entry (none, none)) c.written
      (some c.token, some c.op) :=
    restores_record
      (.cons (restores_entry (by decide) (htoken.map fun v => (v, none)))
      (.cons (restores_entry (by decide) (hop.map fun v => (some c.token, v))) (.nil _)))
  intro hlength rest
  rw [read, hrecord hlength]

theorem Response.restores (depth : Nat) (r : Response) :
    Restores (Response.read (depth + 4)) r.written r := by
  have htoken := restores_fill (restores_word r.token)
  have houtcome := restores_fill (r.outcome.restores depth)
  have hrecord : Restores (record (depth + 4) entry (none, none)) r.written
      (some r.token, some r.outcome) :=
    restores_record
      (.cons (restores_entry (by decide) (htoken.map fun v => (v, none)))
      (.cons (restores_entry (by decide) (houtcome.map fun v => (some r.token, v))) (.nil _)))
  intro hlength rest
  rw [read, hrecord hlength]

theorem Message.ofPayload?_payload {m : Message} (hm : m.payload.length < UInt64.size) :
    ofPayload? m.class m.payload = some m := by
  rw [← List.append_nil m.payload]
  cases m with
  | link l => exact congrArg (Option.map fun r => link r.1) (l.restores 254 hm [])
  | command c => exact congrArg (Option.map fun r => command r.1) (c.restores 252 hm [])
  | response r => exact congrArg (Option.map fun r => response r.1) (r.restores 252 hm [])

end Terrarium
