import Terrarium.Proofs.DatumRoundTrip
import Terrarium.Proofs.DelimitedItems

namespace Terrarium.Cbor

theorem Steps.of_forall {σ : Type} {step : σ → List UInt8 → Reading σ} {a : σ}
    {items : List (List UInt8)} (h : ∀ s ∈ items, Restores (step a) s a) :
    Steps step a items a := by
  induction items with
  | nil => exact .nil a
  | cons s items ih =>
      obtain ⟨hs, hrest⟩ := List.forall_mem_cons.mp h
      exact .cons hs (ih hrest)

theorem forall₂_map {α β γ : Type} {R : β → γ → Prop} {f : α → β} {g : α → γ} {l : List α}
    (h : ∀ a ∈ l, R (f a) (g a)) : List.Forall₂ R (l.map f) (l.map g) := by
  rw [List.forall₂_map_left_iff, List.forall₂_map_right_iff]
  exact List.forall₂_same.mpr h

namespace Datum

/-- Bytes that spell a tree with at most so many containers inside each other: whole numbers and
texts with any heads, numbers of any precision, and arrays and maps of given lengths. -/
inductive Spelling : (depth : Nat) → Datum → List UInt8 → Prop where
  | unsigned {depth : Nat} {n : UInt64} {s : List UInt8} (hs : WideHead 0 n.toNat s) :
      Spelling depth (unsigned n) s
  | negative {depth : Nat} {n : UInt64} {s : List UInt8} (hn : n.toNat < Nat.pow 2 63)
      (hs : WideHead 1 n.toNat s) : Spelling depth (negative n) s
  | half {depth bits : Nat} (hbits : bits < UInt16.size) :
      Spelling depth (float (Binary.singleOfHalf bits)) (0xf9 :: bigEndian 2 bits)
  | single {depth : Nat} (bits : UInt32) :
      Spelling depth (float (Float32.ofBits bits)) (0xfa :: bigEndian 4 bits.toNat)
  | double {depth : Nat} (bits : UInt64) :
      Spelling depth (float (Binary.singleOfDouble (Float.ofBits bits)))
        (0xfb :: bigEndian 8 bits.toNat)
  | bool {depth : Nat} (b : Bool) : Spelling depth (bool b) [if b then 0xf5 else 0xf4]
  | null {depth : Nat} : Spelling depth null [0xf6]
  | text {depth : Nat} {t : String} {s : List UInt8} (hs : WideHead 3 t.utf8ByteSize s) :
      Spelling depth (text t) (s ++ t.toByteArray.data.toList)
  | array {depth : Nat} {items : List (Datum × List UInt8)} {s : List UInt8}
      (hs : WideHead 4 items.length s) (hitems : ∀ i ∈ items, Spelling depth i.1 i.2) :
      Spelling (depth + 1) (array (items.map Prod.fst)) (s ++ (items.map Prod.snd).flatten)
  | map {depth : Nat} {entries : List ((Datum × List UInt8) × (Datum × List UInt8))}
      {s : List UInt8} (hs : WideHead 5 entries.length s)
      (hkeys : ∀ e ∈ entries, Spelling depth e.1.1 e.1.2)
      (hvalues : ∀ e ∈ entries, Spelling depth e.2.1 e.2.2) :
      Spelling (depth + 1) (map (entries.map fun e => (e.1.1, e.2.1)))
        (s ++ (entries.map fun e => e.1.2 ++ e.2.2).flatten)

/-- What reads the contents of a container. -/
def contents : Nat → Option (List UInt8 → Reading Datum)
  | 0 => none
  | depth + 1 => some (read depth)

theorem read_eq (depth : Nat) (s : List UInt8) :
    read depth s = (pull s).bind fun r => readAfter (contents depth) r.1 r.2 := by
  cases depth <;> exact readWith_eq _ s

/-- An item is read, and it is passed over. -/
structure Exact (depth : Nat) (d : Datum) (s : List UInt8) : Prop where
  read : Restores (Datum.read depth) s d
  skip : Restores (passing (Cbor.skip depth)) s ()

variable {depth : Nat} {d : Datum} {s : List UInt8}

theorem Exact.of_pull {head : Head} {front back : List UInt8}
    (hpull : ∀ rest, pull (front ++ rest) = some (head, rest))
    (hread : Restores (readAfter (contents depth) head) back d)
    (hskip : Restores (passing (skipAfter (within depth) head)) back ()) :
    Exact depth d (front ++ back) where
  read hlength rest := by
    rw [List.append_assoc, read_eq, hpull]
    exact hread (length_lt_of_append hlength).2 rest
  skip hlength rest := by
    rw [List.append_assoc, passing, skip_eq, hpull]
    exact hskip (length_lt_of_append hlength).2 rest

theorem Exact.skip_eq (h : Exact depth d s) (hlength : s.length < UInt64.size) (rest : List UInt8) :
    Cbor.skip depth (s ++ rest) = some rest := by
  obtain ⟨_, hskip, heq⟩ := Option.map_eq_some_iff.mp (h.skip hlength rest)
  rwa [(Prod.mk.inj heq).2] at hskip

theorem Exact.of_head (head : Head) (hpull : ∀ rest, pull (s ++ rest) = some (head, rest))
    (hread : ∀ rest, readAfter (contents depth) head rest = some (d, rest))
    (hskip : ∀ rest, skipAfter (within depth) head rest = some rest) : Exact depth d s := by
  rw [← List.append_nil s]
  refine .of_pull hpull (fun _ rest => hread rest) fun _ rest => ?_
  rw [passing, List.nil_append, hskip]
  rfl

theorem Exact.array {items : List (Datum × List UInt8)}
    (hpull : ∀ rest, pull (s ++ rest) = some (.array (some items.length), rest))
    (hitems : ∀ i ∈ items, Exact depth i.1 i.2) :
    Exact (depth + 1) (array (items.map Prod.fst)) (s ++ (items.map Prod.snd).flatten) := by
  refine .of_pull hpull (fun hlength rest => ?_) fun hlength rest => ?_
  · have hsteps := steps_pushItem (forall₂_map fun i hi => (hitems i hi).read)
    have htimes := hsteps.restores_times hlength rest
    rw [List.length_map] at htimes
    exact congrArg (Option.map fun r => (Datum.array r.1.toList, r.2)) htimes
  · have hsteps : Steps (fun _ => passing (Cbor.skip depth)) () (items.map Prod.snd) () := by
      refine .of_forall fun s hs => ?_
      obtain ⟨i, hi, rfl⟩ := List.mem_map.mp hs
      exact (hitems i hi).skip
    have htimes := hsteps.restores_times hlength rest
    rw [List.length_map] at htimes
    simp only [passing, skipAfter, within, elements, htimes, Option.map_some]

theorem Exact.map {entries : List ((Datum × List UInt8) × (Datum × List UInt8))}
    (hpull : ∀ rest, pull (s ++ rest) = some (.map (some entries.length), rest))
    (hkeys : ∀ e ∈ entries, Exact depth e.1.1 e.1.2)
    (hvalues : ∀ e ∈ entries, Exact depth e.2.1 e.2.2) :
    Exact (depth + 1) (map (entries.map fun e => (e.1.1, e.2.1)))
      (s ++ (entries.map fun e => e.1.2 ++ e.2.2).flatten) := by
  refine .of_pull hpull (fun hlength rest => ?_) fun hlength rest => ?_
  · have hsteps : Steps (pushEntry depth) #[] (entries.map fun e => e.1.2 ++ e.2.2) _ :=
      .of_forall₂ (R := fun e d => e ∈ entries ∧ d = (e.1.1, e.2.1))
        (fun acc e d he => by
          obtain ⟨he, rfl⟩ := he
          exact restores_pushEntry (hkeys e he).read (hvalues e he).read acc)
        (List.forall₂_map_right_iff.mpr (List.forall₂_same.mpr fun e he => ⟨he, rfl⟩)) #[]
    rw [List.foldl_push_eq_append', Array.empty_append] at hsteps
    have htimes := hsteps.restores_times hlength rest
    rw [List.length_map] at htimes
    exact congrArg (Option.map fun r => (Datum.map r.1.toList, r.2)) htimes
  · have hsteps : Steps (fun _ => passing fun s => (Cbor.skip depth s).bind (Cbor.skip depth)) ()
        (entries.map fun e => e.1.2 ++ e.2.2) () := by
      refine .of_forall fun s hs => ?_
      obtain ⟨e, he, rfl⟩ := List.mem_map.mp hs
      intro hlength rest
      obtain ⟨hkey, hvalue⟩ := length_lt_of_append hlength
      have hfirst := (hkeys e he).skip_eq hkey (e.2.2 ++ rest)
      have hsecond := (hvalues e he).skip_eq hvalue rest
      rw [passing, List.append_assoc, hfirst, Option.bind_some, hsecond]
      rfl
    have htimes := hsteps.restores_times hlength rest
    rw [List.length_map] at htimes
    simp only [passing, skipAfter, within, elements, htimes, Option.map_some]

/-- An item that is spelled in one of these forms is read, and it is passed over, by a reader that
goes as deep or deeper. -/
theorem Spelling.exact (h : Spelling depth d s) {deeper : Nat} (hdepth : depth ≤ deeper) :
    Exact deeper d s := by
  induction h generalizing deeper with
  | @unsigned _ n s hs =>
      exact .of_head (.unsigned n) (hs.pull (by decide) (by rw [headOf, UInt64.ofNat_toNat]))
        (fun _ => rfl) fun _ => rfl
  | @negative _ n s hn hs =>
      exact .of_head (.negative n) (hs.pull (by decide) (by rw [headOf, UInt64.ofNat_toNat]))
        (fun _ => if_pos hn) fun _ => rfl
  | half hbits => exact .of_head (.float _) (pull_half hbits) (fun _ => rfl) fun _ => rfl
  | single bits => exact .of_head (.float _) (pull_single bits) (fun _ => rfl) fun _ => rfl
  | double bits => exact .of_head (.float _) (pull_double bits) (fun _ => rfl) fun _ => rfl
  | bool b =>
      cases b with
      | false => exact .of_head (.simple 20) (fun _ => rfl) (fun _ => rfl) fun _ => rfl
      | true => exact .of_head (.simple 21) (fun _ => rfl) (fun _ => rfl) fun _ => rfl
  | null => exact .of_head (.simple 22) (fun _ => rfl) (fun _ => rfl) fun _ => rfl
  | @text _ t s hs =>
      have htext := textAfter_bytes t
      refine .of_pull (hs.pull (by decide) rfl) (fun _ rest => ?_) fun _ rest => ?_
      · exact congrArg (Option.map fun r => (Datum.text r.1, r.2)) (htext rest)
      · simp only [passing, skipAfter, htext rest, Option.map_some]
  | array hs hitems ih =>
      obtain ⟨deeper, rfl⟩ := Nat.exists_eq_add_of_le' (Nat.le_of_add_left_le hdepth)
      rw [Nat.add_le_add_iff_right] at hdepth
      exact .array (hs.pull (by decide) rfl) fun i hi => ih i hi hdepth
  | map hs hkeys hvalues ihkeys ihvalues =>
      obtain ⟨deeper, rfl⟩ := Nat.exists_eq_add_of_le' (Nat.le_of_add_left_le hdepth)
      rw [Nat.add_le_add_iff_right] at hdepth
      exact .map (hs.pull (by decide) rfl) (fun e he => ihkeys e he hdepth)
        fun e he => ihvalues e he hdepth

end Datum

end Terrarium.Cbor
