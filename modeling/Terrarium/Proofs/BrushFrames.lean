import Terrarium.Proofs.BrushStrokes
import Terrarium.Proofs.ResponseSize

namespace Terrarium

open Cbor

namespace Cbor

variable {n : Nat}

theorem length_writeHead_le_two (h : n < UInt8.size) (major : Nat) :
    (writeHead major n).length ≤ 2 := by
  rw [writeHead, if_pos h]
  split <;> simp [length_bigEndian]

theorem length_writeHead_le_three (h : n < UInt16.size) (major : Nat) :
    (writeHead major n).length ≤ 3 := by
  rw [writeHead, if_pos h]
  split
  · simp
  · split <;> simp [length_bigEndian]

theorem length_writeRecord {fields : List (String × List UInt8)} (h : fields.length < 24) :
    (writeRecord fields).length =
      1 + (fields.map fun f => (writeText f.1).length + f.2.length).sum := by
  simp only [writeRecord, writeHead, if_pos h, List.length_append, List.length_singleton,
    List.length_flatMap]

end Cbor

variable {b : Brush} {op : Operation} {c : Command}

theorem Point.length_written_le (p : Point) : p.written.length ≤ 11 :=
  (length_writeArray_floats [p.x, p.y]).2

theorem Brush.length_written_le (hsize : b.size.toNat < UInt8.size)
    (hcount : b.density.size < UInt16.size) : b.written.length ≤ 53 + 5 * b.density.size := by
  have hxc := (length_writeFloat b.xc).2
  have hyc := (length_writeFloat b.yc).2
  have hstrength := (length_writeFloat b.strength).2
  have hside : (writeUnsigned b.size.toNat).length ≤ 2 := length_writeHead_le_two hsize 0
  have hhead := length_writeHead_le_three hcount 4
  have hdensities := (length_writeArray_floats b.density.toList).2
  have hnames : (writeText "xc").length = 3 ∧ (writeText "yc").length = 3 ∧
      (writeText "size").length = 5 ∧ (writeText "density_map").length = 12 ∧
      (writeText "strength").length = 9 := by decide
  have hlength : b.density.toList.length = b.density.size := Array.length_toList
  rw [hlength] at hdensities
  rw [written, length_writeRecord (by simp)]
  simp only [List.map_cons, List.map_nil, List.sum_cons, List.sum_nil]
  omega

theorem Operation.length_name_le (op : Operation) : (writeText op.name).length ≤ 30 := by
  cases op <;> rw [name] <;> decide

theorem Operation.length_written_le (hop : op.brush? = some b) :
    op.written.length ≤ 138 + b.written.length := by
  have hname := op.length_name_le
  have hnames : (writeText "kind").length = 5 ∧ (writeText "brush").length = 6 := by decide
  have hfloat (x : Float32) := (length_writeFloat x).2
  have hfew : (("kind", writeText op.name) :: op.writtenFields).length < 24 := by
    cases op <;> simp [writtenFields]
  rw [written, length_writeRecord hfew, List.map_cons, List.sum_cons]
  cases op with
  | terraformRaise _ | terraformSmooth _ | fluidRaise _ =>
      cases hop
      simp only [writtenFields, List.map_cons, List.map_nil, List.sum_cons, List.sum_nil]
      omega
  | terraformLevel _ reference =>
      cases hop
      have hfield : (writeText "reference_height").length = 17 := by decide
      have hreference := hfloat reference
      simp only [writtenFields, List.map_cons, List.map_nil, List.sum_cons, List.sum_nil]
      omega
  | terraformRamp _ start startHeight stop stopHeight =>
      cases hop
      have hfields : (writeText "source_point").length = 13 ∧
          (writeText "source_height").length = 14 ∧
          (writeText "destination_point").length = 18 ∧
          (writeText "destination_height").length = 19 := by decide
      have hstart := start.length_written_le
      have hstop := stop.length_written_le
      have hstartHeight := hfloat startHeight
      have hstopHeight := hfloat stopHeight
      simp only [writtenFields, List.map_cons, List.map_nil, List.sum_cons, List.sum_nil]
      omega
  | _ => cases hop

theorem Command.length_payload_le (c : Command) :
    (Message.command c).payload.length ≤ 19 + c.op.written.length := by
  have htoken : (writeUnsigned c.token.toNat).length ≤ 9 := length_writeUnsigned_le _
  have hnames : (writeText "token").length = 6 ∧ (writeText "op").length = 3 := by decide
  rw [Message.payload, written, length_writeRecord (by simp)]
  simp only [List.map_cons, List.map_nil, List.sum_cons, List.sum_nil]
  omega

theorem Operation.densities_of_brush? (hop : op.brush? = some b) :
    op.densities = b.density.size := by
  cases op <;> cases hop <;> rfl

/-- Commands with brushes of up to 215 cells on each side have frames, those with brushes of 278
or more have none. -/
theorem Command.frame_of_brush (hop : c.op.brush? = some b)
    (hcount : b.density.size = b.size.toNat * b.size.toNat) :
    (b.size.toNat ≤ 215 → ∃ bytes, (Message.command c).frame = .ok bytes) ∧
    (278 ≤ b.size.toNat → (Message.command c).frame =
      .error (.tooLarge (Message.command c).payload.length)) := by
  have hmax : Frame.maxPayload = 231424 := by decide
  rw [Message.frame]
  constructor
  · intro hsize
    have hdensities : b.density.size ≤ 215 * 215 := hcount ▸ Nat.mul_le_mul hsize hsize
    have hbyte : b.size.toNat < UInt8.size := Nat.lt_of_le_of_lt hsize (by decide)
    have hword : b.density.size < UInt16.size := Nat.lt_of_le_of_lt hdensities (by decide)
    have hpayload := c.length_payload_le
    have hoperation := c.op.length_written_le hop
    have hbrush := Brush.length_written_le hbyte hword
    exact ⟨_, if_neg (by omega)⟩
  · intro hsize
    have hdensities : 278 * 278 ≤ b.density.size := hcount ▸ Nat.mul_le_mul hsize hsize
    have hpayload := c.densities_le_payload
    rw [Operation.densities_of_brush? hop] at hpayload
    exact if_pos (by omega)

theorem Command.frame_of_brush_limits :
    let ramp : Command := ⟨UInt64.ofNat (Nat.pow 2 64 - 1), .terraformRamp
      ⟨0.1, 0.1, 215, Array.replicate (215 * 215) 0.1, 0.1⟩ ⟨0.1, 0.1⟩ 0.1 ⟨9.1, 0.1⟩ 0.1⟩
    let raise : Command := ⟨0, .terraformRaise (Brush.uniform 0 0 278 1)⟩
    (ramp.op.brush?.isSome ∧ ∃ bytes, (Message.command ramp).frame = .ok bytes) ∧
    (raise.op.brush?.isSome ∧
      ∃ size, (Message.command raise).frame = .error (.tooLarge size)) :=
  ⟨⟨rfl, (Command.frame_of_brush rfl Array.size_replicate).1 (by decide)⟩,
    ⟨rfl, _, (Command.frame_of_brush rfl Array.size_replicate).2 (by decide)⟩⟩

end Terrarium
