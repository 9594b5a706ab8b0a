import Mathlib.Data.Nat.Digits.Defs
import Terrarium.Frame.Basic
import Terrarium.Proofs.ItemRoundTrip
import Terrarium.Proofs.WorldChange

namespace Terrarium

theorem utf8ByteSize_le (s : String) : s.utf8ByteSize ≤ 4 * s.length := by
  suffices h : ∀ chars : List Char, (String.ofList chars).utf8ByteSize ≤ 4 * chars.length by
    have hs := h s.toList
    rwa [String.ofList_toList, String.length_toList] at hs
  intro chars
  induction chars with
  | nil => exact Nat.zero_le _
  | cons c chars ih =>
      have hc := c.utf8Size_le_four
      rw [String.ofList_cons, String.utf8ByteSize_append, String.utf8ByteSize_singleton,
        List.length_cons]
      omega

theorem length_take (s : String) (n : Nat) : (s.take n).toString.length = min n s.length := by
  rw [← String.length_toList, ← String.length_toList, ← List.length_take]
  exact congrArg List.length String.toList_copy_take

theorem length_drop (s : String) (n : Nat) : (s.drop n).toString.length = s.length - n := by
  rw [← String.length_toList, ← String.length_toList, ← List.length_drop]
  exact congrArg List.length String.toList_copy_drop

theorem length_append_le {s t : String} {m n : Nat} (hs : s.length ≤ m) (ht : t.length ≤ n) :
    (s ++ t).length ≤ m + n := by
  rw [String.length_append]
  exact Nat.add_le_add hs ht

theorem length_repr_le {n e : Nat} (he : 0 < e) (hn : n < 10 ^ e) : (toString n).length ≤ e :=
  Nat.repr_length n e he hn

namespace Decimal

open Binary

theorem Tie.nearest_le (t : Tie) (num den : Nat) : t.nearest num den ≤ num + 1 := by
  cases t with
  | even =>
      have hquotient := Nat.div_le_self num den
      rw [nearest, divNearest]
      split <;> omega
  | up =>
      rcases Nat.eq_zero_or_pos den with rfl | hden
      · exact (Nat.div_zero _).trans_le (Nat.zero_le _)
      · refine Nat.div_le_of_le_mul ?_
        calc 2 * num + den ≤ 2 * (num + 1) * den := by nlinarith
          _ = 2 * den * (num + 1) := by ring

theorem Interval.onGrid?_le {i : Interval} {tie : Tie} {exponent : Int} {digits : Nat}
    (h : i.onGrid? tie exponent = some digits) :
    digits ≤ i.value * (2 ^ i.scale.toNat * 10 ^ (-exponent).toNat) + 1 := by
  rw [onGrid?] at h
  split at h
  · rw [← Option.some.inj h]
    exact tie.nearest_le _ _
  · split at h
    · rw [← Option.some.inj h]
      exact Nat.le_succ_of_le (Nat.div_le_self _ _)
    · split at h
      · rw [← Option.some.inj h]
        exact Nat.succ_le_succ (Nat.div_le_self _ _)
      · contradiction

/-- Digits that are not many, at an exponent that is not far from zero. -/
structure Digits.Moderate (d : Digits) : Prop where
  digits : d.digits < 10 ^ 110
  lowest : -70 ≤ d.exponent
  highest : d.exponent ≤ 70

theorem moderate_shortestFrom {i : Interval} (hvalue : i.value < 2 ^ 26) (hscale : i.scale ≤ 102)
    (tie : Tie) (exponent : Int) (finer : Nat) (hlow : -70 ≤ exponent - finer)
    (hhigh : exponent ≤ 40) :
    (shortestFrom i tie exponent finer).digits < 10 ^ 110 ∧
      -70 ≤ (shortestFrom i tie exponent finer).exponent ∧
      (shortestFrom i tie exponent finer).exponent ≤ 40 := by
  have hdigits {e : Int} (he : -70 ≤ e) {digits : Nat} (h : i.onGrid? tie e = some digits) :
      digits < 10 ^ 110 := by
    have htwo : (2 : Nat) ^ i.scale.toNat ≤ 2 ^ 102 := Nat.pow_le_pow_right (by decide) (by omega)
    have hten : (10 : Nat) ^ (-e).toNat ≤ 10 ^ 70 := Nat.pow_le_pow_right (by decide) (by omega)
    calc digits ≤ i.value * (2 ^ i.scale.toNat * 10 ^ (-e).toNat) + 1 := i.onGrid?_le h
      _ ≤ 2 ^ 26 * (2 ^ 102 * 10 ^ 70) + 1 :=
        Nat.succ_le_succ (Nat.mul_le_mul hvalue.le (Nat.mul_le_mul htwo hten))
      _ < 10 ^ 110 := by decide
  induction finer generalizing exponent with
  | zero =>
      rw [shortestFrom]
      refine ⟨?_, by simpa using hlow, hhigh⟩
      cases h : i.onGrid? tie exponent with
      | none => exact Nat.pow_pos (by decide)
      | some digits => exact hdigits (by simpa using hlow) h
  | succ finer ih =>
      rw [shortestFrom]
      split
      · rename_i digits h
        have hlowest : -70 ≤ exponent := by omega
        exact ⟨hdigits hlowest h, hlowest, hhigh⟩
      · exact ih (exponent - 1) (by omega) (by omega)

theorem trim_go (digits : Nat) (exponent : Int) (more : Nat) :
    (Digits.trim.go digits exponent more).digits ≤ digits ∧
      exponent ≤ (Digits.trim.go digits exponent more).exponent ∧
      (Digits.trim.go digits exponent more).exponent ≤ exponent + more := by
  induction more generalizing digits exponent with
  | zero => simp [Digits.trim.go]
  | succ more ih =>
      rw [Digits.trim.go]
      split
      · have hquotient := Nat.div_le_self digits 10
        have h := ih (digits / 10) (exponent + 1)
        omega
      · dsimp only
        omega

theorem Digits.Moderate.of_trim {d : Digits} (hdigits : d.digits < 10 ^ 110)
    (hlowest : -70 ≤ d.exponent) (hhighest : d.exponent ≤ 40) : d.trim.Moderate := by
  obtain ⟨hle, hlow, hhigh⟩ := trim_go d.digits d.exponent 20
  refine ⟨Nat.lt_of_le_of_lt hle hdigits, ?_, ?_⟩ <;> rw [trim] <;> omega

theorem bounds_of_decode {bits mantissa : Nat} {negative : Bool} {scale : Int}
    (h : single.decode bits = .finite negative mantissa scale) :
    mantissa < 2 ^ 24 ∧ -149 ≤ scale ∧ scale ≤ 104 := by
  have hfraction : bits % Nat.pow 2 single.fractionBits < 2 ^ 23 := Nat.mod_lt _ (by decide)
  have hexponent : bits / Nat.pow 2 single.fractionBits % Nat.pow 2 single.exponentBits < 2 ^ 8 :=
    Nat.mod_lt _ (by decide)
  have hleast : single.leastScale = -149 := rfl
  have hlast : Nat.pow 2 single.exponentBits - 1 = 255 := rfl
  have hone : Nat.pow 2 single.fractionBits = 2 ^ 23 := rfl
  rw [Format.decode] at h
  split at h
  · split at h <;> contradiction
  · split at h
    · obtain ⟨-, rfl, rfl⟩ := Value.finite.inj h
      omega
    · obtain ⟨-, rfl, rfl⟩ := Value.finite.inj h
      omega

theorem moderate_shortest {mantissa : Nat} {scale : Int} (hpos : mantissa ≠ 0)
    (hmantissa : mantissa < 2 ^ 24) (hlow : -149 ≤ scale) (hhigh : scale ≤ 104) (tie : Tie) :
    (shortest single tie mantissa scale).Moderate := by
  have hvalue : 4 * mantissa < 2 ^ 26 := by omega
  have hlog : (4 * mantissa).log2 < 26 := (Nat.log2_lt (by omega)).mpr hvalue
  have hstart : -50 ≤ leadingExponent (4 * mantissa) (scale - 2) + 2 ∧
      leadingExponent (4 * mantissa) (scale - 2) + 2 ≤ 40 := by
    rw [leadingExponent]
    omega
  obtain ⟨hdigits, hlowest, hhighest⟩ := moderate_shortestFrom (i := interval single mantissa scale)
    hvalue (by change scale - 2 ≤ 102; omega) tie
    (leadingExponent (4 * mantissa) (scale - 2) + 2) 20 (by omega) hstart.2
  exact .of_trim hdigits hlowest hhighest

theorem length_positional_le {d : Digits} (hd : d.Moderate) : (positional d).length ≤ 180 := by
  have hdigits := length_repr_le (by decide) hd.digits
  have hlow := hd.lowest
  have hhigh := hd.highest
  rw [positional]
  dsimp only
  split
  · rw [String.length_append, String.length_pushn]
    have hempty : "".length = 0 := rfl
    omega
  · split
    · rw [String.length_append, String.length_append, String.length_pushn]
      have hempty : "".length = 0 := rfl
      have hpoint : "0.".length = 2 := rfl
      omega
    · have hpoint : ".".length = 1 := rfl
      rw [String.length_append, String.length_append, length_take, length_drop]
      omega

theorem length_plainText_le (x : Float32) : (plainText x).length ≤ 1 + 180 := by
  have hsign (negative : Bool) : (signText negative).length ≤ 1 := by cases negative <;> decide
  rw [plainText]
  split
  · decide
  · exact length_append_le (hsign _) (by decide)
  · exact length_append_le (hsign _) (by decide)
  · rename_i negative mantissa scale hpos hvalue
    obtain ⟨hmantissa, hlow, hhigh⟩ := bounds_of_decode hvalue
    exact length_append_le (hsign negative)
      (length_positional_le (moderate_shortest hpos hmantissa hlow hhigh .up))

end Decimal

/-- A failure with a short text. -/
def Failure.Short : Failure → Prop
  | .invalidArgument text => text.length ≤ 400
  | _ => True

/-- The number of densities that a brush operation carries. -/
def Operation.densities : Operation → Nat
  | .terraformRaise b => b.density.size
  | .terraformLevel b _ => b.density.size
  | .terraformSmooth b => b.density.size
  | .terraformRamp b .. => b.density.size
  | .fluidRaise b => b.density.size
  | _ => 0

theorem ObjectId.length_text_le (id : ObjectId) : id.text.length ≤ 1 + 20 :=
  have hword : id.word.toNat < 10 ^ 20 := Nat.lt_trans id.word.toNat_lt (by decide)
  length_append_le (Nat.le_refl 1) (length_repr_le (by decide) hword)

theorem StoreError.length_message_le (e : StoreError) : e.message.length ≤ 100 := by
  cases e with
  | nullId => decide
  | idInUse id =>
      have hfront : "object id ".length ≤ 10 := by decide
      have hback : " is already in use".length ≤ 18 := by decide
      exact Nat.le_trans (length_append_le (length_append_le hfront id.length_text_le) hback)
        (by decide)
  | exhausted => decide

namespace Objection

theorem short_failure {o : Objection} (h : o.message.length ≤ 400) : o.failure.Short := h

theorem short_densityCount {found expected : Nat} (hfound : found < 10 ^ 20)
    (hexpected : expected < 10 ^ 20) : (densityCount found expected).failure.Short := by
  have hfront : "density map has ".length ≤ 16 := by decide
  have hmiddle : " entries, expected ".length ≤ 19 := by decide
  have htext := length_append_le (length_append_le (length_append_le hfront
    (length_repr_le (by decide) hfound)) hmiddle) (length_repr_le (by decide) hexpected)
  exact short_failure (Nat.le_trans htext (by decide))

theorem short_badRadius (radius : Float32) : (badRadius radius).failure.Short := by
  have hfront : "source radius ".length ≤ 14 := by decide
  have hback : " must be finite and non-negative".length ≤ 32 := by decide
  have htext :=
    length_append_le (length_append_le hfront (Decimal.length_plainText_le radius)) hback
  exact short_failure (Nat.le_trans htext (by decide))

theorem short_store (e : StoreError) : (store e).failure.Short :=
  short_failure (Nat.le_trans e.length_message_le (by decide))

end Objection

theorem Brush.short_footprint {b : Brush} {grid : UInt32} {e : Failure}
    (hb : b.density.size < 10 ^ 20) (h : b.footprint grid = .error e) : e.Short := by
  have hcount : b.size.toNat * b.size.toNat < 10 ^ 20 :=
    calc b.size.toNat * b.size.toNat ≤ 2 ^ 32 * 2 ^ 32 :=
          Nat.mul_le_mul b.size.toNat_lt.le b.size.toNat_lt.le
      _ < 10 ^ 20 := by decide
  rw [footprint, validate] at h
  split at h
  · rename_i e' hinvalid
    cases h
    split at hinvalid
    · cases hinvalid
      exact Objection.short_failure (by decide)
    · split at hinvalid
      · cases hinvalid
        exact Objection.short_failure (by decide)
      · split at hinvalid
        · cases hinvalid
          exact Objection.short_densityCount hb hcount
        · contradiction
  · split at h
    · cases h
      trivial
    · contradiction

namespace World

variable {w : World} {e : Failure}

theorem short_paintGround {b : Brush}
    {rule : Grid Float32 → Nat → Nat → Float32 → Grid Float32} (hb : b.density.size < 10 ^ 20)
    (h : w.paintGround b rule = .error e) : e.Short := by
  rw [paintGround, HeightMap.painted] at h
  cases hfoot : b.footprint w.ground.size with
  | error e' =>
      rw [hfoot] at h
      cases h
      exact Brush.short_footprint hb hfoot
  | ok r => simp [hfoot] at h

theorem short_checkPlacement {pos : Point} {radius : Float32}
    (h : checkPlacement pos radius = .error e) : e.Short := by
  rw [checkPlacement] at h
  split at h
  · cases h
    exact Objection.short_failure (by decide)
  · split at h
    · cases h
      exact Objection.short_badRadius radius
    · contradiction

theorem short_updateSource {id : ObjectId} {f : Source → Source}
    (h : w.updateSource id f = .error e) : e.Short := by
  rw [updateSource] at h
  split at h
  · cases h
    trivial
  · contradiction

theorem short_apply {op : Operation} (hop : op.densities < 10 ^ 20) (h : w.apply op = .error e) :
    e.Short := by
  cases op with
  | terraformRaise b => exact short_paintGround hop h
  | terraformLevel b reference => exact short_paintGround hop h
  | terraformSmooth b => exact short_paintGround hop h
  | terraformRamp b start startHeight stop stopHeight =>
      rw [apply, paintRamp] at h
      dsimp only at h
      split at h
      · cases h
        exact Objection.short_failure (by decide)
      · exact short_paintGround hop h
  | fluidRaise b =>
      rw [apply, paintFluid] at h
      split at h
      · rename_i e' hfoot
        cases h
        exact Brush.short_footprint hop hfoot
      · contradiction
  | sourceCreate id pos radius level capacity =>
      rw [apply, createSource] at h
      split at h
      · rename_i e' hplace
        cases h
        exact short_checkPlacement hplace
      · split at h
        · cases h
          exact Objection.short_store _
        · contradiction
  | sourceMove id pos =>
      rw [apply, moveSource] at h
      split at h
      · rename_i e' hplace
        cases h
        exact short_checkPlacement hplace
      · exact short_updateSource h
  | sourceSetLevel id level => exact short_updateSource h
  | sourceSetCapacity id capacity => exact short_updateSource h
  | sourceDestroy id =>
      rw [apply, destroySource] at h
      split at h
      · cases h
        trivial
      · contradiction
  | oceanSetLevel level => contradiction
  | fluidReset => contradiction

end World

namespace Cbor

theorem length_writeHead_le (major n : Nat) : (writeHead major n).length ≤ 9 := by
  rw [writeHead]
  repeat' split
  all_goals simp [length_bigEndian]

theorem length_writeUnsigned_le (n : Nat) : (writeUnsigned n).length ≤ 9 := length_writeHead_le 0 n

theorem length_writeText_le (t : String) : (writeText t).length ≤ 9 + 4 * t.length := by
  rw [writeText, List.length_append, length_bytes]
  exact Nat.add_le_add (length_writeHead_le 3 _) (utf8ByteSize_le t)

theorem length_writeRecord_le {fields : List (String × List UInt8)} {k n : Nat}
    (h : ∀ f ∈ fields, f.1.length ≤ k ∧ f.2.length ≤ n) :
    (writeRecord fields).length ≤ 9 + fields.length * (9 + 4 * k + n) := by
  rw [writeRecord, List.length_append, List.length_flatMap]
  refine Nat.add_le_add (length_writeHead_le 5 _) ?_
  induction fields with
  | nil => exact Nat.zero_le _
  | cons f fields ih =>
      obtain ⟨hname, hcontent⟩ := h f List.mem_cons_self
      have hrest := ih fun f hf => h f (List.mem_cons_of_mem _ hf)
      have htext := length_writeText_le f.1
      rw [List.map_cons, List.sum_cons, List.length_cons, List.length_append, Nat.succ_mul]
      omega

theorem length_writeChoice_le {name : String} {content : List UInt8} {n : Nat}
    (hname : name.length ≤ 15) (hcontent : content.length ≤ n) :
    (writeChoice name content).length ≤ 78 + n := by
  have h : (writeRecord [(name, content)]).length ≤ _ :=
    length_writeRecord_le (List.forall_mem_singleton.mpr ⟨hname, hcontent⟩)
  rw [List.length_singleton] at h
  rw [writeChoice]
  omega

theorem length_writeFloat (x : Float32) : 3 ≤ (writeFloat x).length ∧ (writeFloat x).length ≤ 5 := by
  rw [writeFloat]
  split <;> simp [length_bigEndian]

theorem length_field_le {fields : List (String × List UInt8)} {f : String × List UInt8}
    (hf : f ∈ fields) : f.2.length ≤ (writeRecord fields).length := by
  rw [writeRecord, List.length_append, List.length_flatMap]
  have hsum :=
    List.le_sum_of_mem (List.mem_map_of_mem (f := fun f => (writeText f.1 ++ f.2).length) hf)
  rw [List.length_append] at hsum
  omega

end Cbor

open Cbor

theorem length_writeArray_floats (xs : List Float32) :
    3 * xs.length ≤ (writeArray (xs.map writeFloat)).length ∧
      (writeArray (xs.map writeFloat)).length ≤ (writeHead 4 xs.length).length + 5 * xs.length := by
  have hlow : ∀ n ∈ xs.map fun x => (writeFloat x).length, 3 ≤ n := by
    simp only [List.forall_mem_map, length_writeFloat, implies_true]
  have hhigh : ∀ n ∈ xs.map fun x => (writeFloat x).length, n ≤ 5 := by
    simp only [List.forall_mem_map, length_writeFloat, implies_true]
  have hleast := List.card_nsmul_le_sum _ _ hlow
  have hgreatest := List.sum_le_card_nsmul _ _ hhigh
  rw [List.length_map, smul_eq_mul] at hleast hgreatest
  have hsum : (xs.map writeFloat).flatten.length = (xs.map fun x => (writeFloat x).length).sum := by
    rw [List.length_flatten, List.map_map]
    rfl
  rw [writeArray, List.length_append, List.length_map, hsum]
  omega

theorem Brush.density_le_written (b : Brush) : 3 * b.density.size ≤ b.written.length :=
  Nat.le_trans (length_writeArray_floats b.density.toList).1
    (length_field_le (f := ("density_map", _)) (.tail _ (.tail _ (.tail _ (.head _)))))

theorem Operation.densities_le_written (op : Operation) :
    3 * op.densities ≤ op.written.length := by
  have hbrush (b : Brush) (h : ("brush", b.written) ∈ op.writtenFields) :
      3 * b.density.size ≤ op.written.length :=
    Nat.le_trans b.density_le_written
      (length_field_le (f := ("brush", b.written)) (List.mem_cons_of_mem _ h))
  cases op with
  | terraformRaise b => exact hbrush b List.mem_cons_self
  | terraformLevel b reference => exact hbrush b List.mem_cons_self
  | terraformSmooth b => exact hbrush b List.mem_cons_self
  | terraformRamp b start startHeight stop stopHeight => exact hbrush b List.mem_cons_self
  | fluidRaise b => exact hbrush b List.mem_cons_self
  | _ => exact Nat.zero_le _

theorem ObjectId.length_written_le (id : ObjectId) : id.written.length ≤ 113 :=
  Nat.le_trans (length_writeUnsigned_le _) (by decide)

theorem Rect.length_written_le (r : Rect) : r.written.length ≤ 113 := by
  refine length_writeRecord_le (k := 2) (n := 9) ?_
  simp only [List.forall_mem_cons, length_writeUnsigned_le, and_true]
  decide

theorem Delta.length_written_le (d : Delta) : d.written.length ≤ 191 := by
  cases d with
  | nothing => exact Nat.le_trans (length_writeText_le _) (by decide)
  | terrain r => exact length_writeChoice_le (by decide) r.length_written_le
  | fluid r => exact length_writeChoice_le (by decide) r.length_written_le
  | created id => exact length_writeChoice_le (by decide) id.length_written_le
  | updated id => exact length_writeChoice_le (by decide) id.length_written_le
  | destroyed id => exact length_writeChoice_le (by decide) id.length_written_le

theorem Failure.length_written_le {e : Failure} (he : e.Short) : e.written.length ≤ 1687 := by
  cases e with
  | noSuchObject id =>
      exact Nat.le_trans (length_writeChoice_le (by decide) id.length_written_le) (by decide)
  | invalidArgument t =>
      have htext : (writeText t).length ≤ 9 + 4 * 400 :=
        Nat.le_trans (length_writeText_le t) (Nat.add_le_add_left (Nat.mul_le_mul_left 4 he) 9)
      exact length_writeChoice_le (by decide) htext
  | outOfBounds => exact Nat.le_trans (length_writeText_le _) (by decide)

/-- Whatever an operation leads to, the response has a frame, as long as its densities can be counted
in a word. -/
theorem World.response_fits_of_densities (w : World) {op : Operation}
    (hop : op.densities < UInt64.size) (token : UInt64) :
    (Message.response ⟨token, (w.execute op).1⟩).payload.length ≤ Frame.maxPayload := by
  have houtcome : (w.execute op).1.written.length ≤ 78 + 1687 := by
    rw [execute_eq]
    split
    · rename_i e happly
      have hshort := short_apply (Nat.lt_trans hop (by decide)) happly
      exact length_writeChoice_le (by decide) (Failure.length_written_le hshort)
    · rename_i d next happly
      exact length_writeChoice_le (by decide) (Nat.le_trans d.length_written_le (by decide))
  have hpayload : (Message.response ⟨token, (w.execute op).1⟩).payload.length ≤
      9 + 2 * (9 + 4 * 6 + (78 + 1687)) := by
    refine length_writeRecord_le ?_
    have htoken : "token".length ≤ 6 := by decide
    have hresult : "result".length ≤ 6 := by decide
    rw [List.forall_mem_cons, List.forall_mem_cons]
    exact ⟨⟨htoken, Nat.le_trans (length_writeUnsigned_le _) (by decide)⟩,
      ⟨hresult, houtcome⟩, List.forall_mem_nil _⟩
  exact Nat.le_trans hpayload (by decide)

theorem Command.densities_le_payload (c : Command) :
    3 * c.op.densities ≤ (Message.command c).payload.length :=
  Nat.le_trans c.op.densities_le_written
    (length_field_le (f := ("op", c.op.written)) (.tail _ (.head _)))

theorem World.response_fits (w : World) {c : Command}
    (hc : (Message.command c).payload.length ≤ Frame.maxPayload) (token : UInt64) :
    (Message.response ⟨token, (w.execute c.op).1⟩).payload.length ≤ Frame.maxPayload := by
  have hdensities : c.op.densities ≤ Frame.maxPayload := by
    have hpayload := c.densities_le_payload
    omega
  exact w.response_fits_of_densities (Nat.lt_of_le_of_lt hdensities (by decide)) token

end Terrarium
