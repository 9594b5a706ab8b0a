import Terrarium.Cbor.Datum
import Terrarium.Proofs.HeadRoundTrip

/-!
Readers take a front of the bytes and look no further. Whatever a reader accepts it accepts with any
other bytes behind what it took, and gives the same. This is kept when readers run one after the other
and in loops; a loop that is bounded by the bytes it is given takes at least one of them in each round,
so that the bound is never met.
-/
namespace Terrarium.Cbor

variable {α β σ : Type} {least : Nat}

/-- A reader takes at least so many bytes off the front, and the others have no part in what it
gives. -/
def Delimited (least : Nat) (read : List UInt8 → Reading α) : Prop :=
  ∀ ⦃s a rest⦄, read s = some (a, rest) →
    ∃ front, s = front ++ rest ∧ least ≤ front.length ∧
      ∀ more, read (front ++ more) = some (a, more)

namespace Delimited

variable {first : List UInt8 → Reading α} {read : List UInt8 → Reading β}

theorem weaken (h : Delimited least first) : Delimited 0 first := by
  intro s a rest hs
  obtain ⟨front, hfront, -, hmore⟩ := h hs
  exact ⟨front, hfront, Nat.zero_le _, hmore⟩

theorem ofOption (o : Option α) : Delimited 0 fun s => o.map fun a => (a, s) := by
  intro s a rest hs
  cases o with
  | none => cases hs
  | some b =>
      cases hs
      exact ⟨[], rfl, Nat.le_refl 0, fun _ => rfl⟩

theorem pure (a : α) : Delimited 0 fun s => some (a, s) := ofOption (some a)

theorem fail : Delimited least fun _ => (none : Reading α) := fun _ _ _ hs => by cases hs

theorem ite {c : Prop} [Decidable c] {read' : List UInt8 → Reading β} (h : Delimited least read)
    (h' : Delimited least read') : Delimited least fun s => if c then read s else read' s := by
  by_cases hc : c
  · simpa only [if_pos hc] using h
  · simpa only [if_neg hc] using h'

theorem bind {g : α → List UInt8 → Reading β} (hfirst : Delimited least first)
    (hnext : ∀ a, Delimited 0 (g a))
    (hread : ∀ s, read s = (first s).bind fun r => g r.1 r.2) : Delimited least read := by
  intro s b rest hs
  rw [hread, Option.bind_eq_some_iff] at hs
  obtain ⟨⟨a, middle⟩, ha, hb⟩ := hs
  obtain ⟨front, rfl, hlength, hfront⟩ := hfirst ha
  obtain ⟨front', rfl, -, hfront'⟩ := hnext a hb
  refine ⟨front ++ front', (List.append_assoc ..).symm, ?_, fun more => ?_⟩
  · rw [List.length_append]
    exact Nat.le_add_right_of_le hlength
  · rw [hread, List.append_assoc, hfront]
    exact hfront' more

theorem map (h : Delimited least first) (f : α → β) :
    Delimited least fun s => (first s).map fun (a, rest) => (f a, rest) :=
  h.bind (fun a => pure (f a)) fun s => by rw [Option.map_eq_bind]; rfl

theorem cons {g : UInt8 → List UInt8 → Reading β} (hnext : ∀ b, Delimited 0 (g b))
    (hnil : read [] = none) (hread : ∀ b s, read (b :: s) = g b s) : Delimited 1 read := by
  intro s a rest hs
  cases s with
  | nil => rw [hnil] at hs; cases hs
  | cons b s =>
      rw [hread] at hs
      obtain ⟨front, rfl, -, hfront⟩ := hnext b hs
      exact ⟨b :: front, rfl, Nat.succ_pos _, fun more => (hread b _).trans (hfront more)⟩

theorem length_lt (h : Delimited 1 first) {s rest : List UInt8} {a : α}
    (hs : first s = some (a, rest)) : rest.length < s.length := by
  obtain ⟨front, rfl, hlength, -⟩ := h hs
  rw [List.length_append]
  omega

end Delimited

/-- Takes turns, each of which ends or goes on, as long as a string bounds them. -/
def rounds (turn : σ → List UInt8 → Reading (β ⊕ σ)) :
    (bound : List UInt8) → σ → List UInt8 → Reading β
  | [], _, _ => none
  | _ :: bound, a, s =>
      match turn a s with
      | none => none
      | some (.inl b, rest) => some (b, rest)
      | some (.inr a, rest) => rounds turn bound a rest

theorem exists_rounds {turn : σ → List UInt8 → Reading (β ⊕ σ)} (hturn : ∀ a, Delimited 1 (turn a))
    {bound : List UInt8} {a : σ} {s rest : List UInt8} {b : β}
    (h : rounds turn bound a s = some (b, rest)) :
    ∃ front, s = front ++ rest ∧ 1 ≤ front.length ∧ ∀ bound' more,
      front.length ≤ bound'.length → rounds turn bound' a (front ++ more) = some (b, more) := by
  induction bound generalizing a s with
  | nil => cases h
  | cons _ bound ih =>
      have hcons {bound' : List UInt8} {n : Nat} (hn : 1 ≤ n) (hbound : n ≤ bound'.length) :
          ∃ c tail, bound' = c :: tail := List.exists_cons_of_length_pos (hn.trans hbound)
      rw [rounds] at h
      split at h
      · cases h
      · rename_i hs
        cases h
        obtain ⟨front, rfl, hlength, hfront⟩ := hturn a hs
        refine ⟨front, rfl, hlength, fun bound' more hbound => ?_⟩
        obtain ⟨c, tail, rfl⟩ := hcons hlength hbound
        rw [rounds, hfront]
      · rename_i a' middle hs
        obtain ⟨front, rfl, hlength, hfront⟩ := hturn a hs
        obtain ⟨front', rfl, -, hfront'⟩ := ih h
        refine ⟨front ++ front', (List.append_assoc ..).symm, ?_, fun bound' more hbound => ?_⟩
        · rw [List.length_append]
          exact Nat.le_add_right_of_le hlength
        · rw [List.length_append] at hbound
          obtain ⟨c, tail, rfl⟩ := hcons hlength (Nat.le_of_add_right_le hbound)
          rw [List.length_cons] at hbound
          rw [List.append_assoc, rounds, hfront]
          exact hfront' tail more (by omega)

/-- A loop that is bounded by the bytes it is given. -/
theorem delimited_rounds {turn : σ → List UInt8 → Reading (β ⊕ σ)}
    (hturn : ∀ a, Delimited 1 (turn a)) (a : σ) : Delimited 1 fun s => rounds turn s a s := by
  intro s b rest h
  obtain ⟨front, hs, hlength, hfront⟩ := exists_rounds hturn h
  refine ⟨front, hs, hlength, fun more => hfront (front ++ more) more ?_⟩
  rw [List.length_append]
  exact Nat.le_add_right _ _

section Elements

variable {step : σ → List UInt8 → Reading σ}

theorem delimited_times (hstep : ∀ a, Delimited 0 (step a)) (n : Nat) (a : σ) :
    Delimited 0 (times step n a) := by
  induction n generalizing a with
  | zero => exact .pure a
  | succ n ih =>
      refine (hstep a).bind ih fun s => ?_
      rw [times]
      cases step a s <;> rfl

/-- One round of a container without a length: the stop, or an element. -/
def stopTurn (step : σ → List UInt8 → Reading σ) (a : σ) : List UInt8 → Reading (σ ⊕ σ)
  | 0xff :: rest => some (.inl a, rest)
  | s => (step a s).map fun (a, rest) => (.inr a, rest)

theorem stopTurn_of_ne {s : List UInt8} (hs : ∀ rest, s ≠ 0xff :: rest) (a : σ) :
    stopTurn step a s = (step a s).map fun (a, rest) => (.inr a, rest) := by
  rw [stopTurn]
  exact hs

theorem untilStop_eq (step : σ → List UInt8 → Reading σ) (bound : List UInt8) (a : σ)
    (s : List UInt8) : untilStop step bound a s = rounds (stopTurn step) bound a s := by
  induction bound generalizing a s with
  | nil => rfl
  | cons _ bound ih =>
      by_cases hstop : ∃ rest, s = 0xff :: rest
      · obtain ⟨rest, rfl⟩ := hstop
        rfl
      · have hgo : ∀ rest, s ≠ 0xff :: rest := fun rest hs => hstop ⟨rest, hs⟩
        rw [untilStop, rounds, stopTurn_of_ne hgo]
        · rcases step a s with - | ⟨b, rest⟩
          · rfl
          · exact ih b rest
        · exact hgo

theorem delimited_stopTurn (hstep : ∀ a, Delimited 1 (step a)) (a : σ) :
    Delimited 1 (stopTurn step a) := by
  have helement := (hstep a).map (Sum.inr (α := σ))
  intro s b rest h
  unfold stopTurn at h
  split at h
  · cases h
    exact ⟨[0xff], rfl, Nat.le_refl 1, fun _ => rfl⟩
  · rename_i hstop
    obtain ⟨front, rfl, hlength, hfront⟩ := helement h
    refine ⟨front, rfl, hlength, fun more => ?_⟩
    -- The first byte is among those taken, and it is no stop.
    obtain ⟨c, front, rfl⟩ := List.exists_cons_of_length_pos hlength
    have hc : c ≠ 0xff := fun hc => hstop (front ++ rest) (by rw [hc]; rfl)
    exact (stopTurn_of_ne (fun _ heq => hc (List.cons.inj heq).1) a).trans (hfront more)

theorem delimited_elements (hstep : ∀ a, Delimited 1 (step a)) (length : Option Nat) (a : σ) :
    Delimited 0 (elements step length a) := by
  cases length with
  | some n => exact delimited_times (fun a => (hstep a).weaken) n a
  | none =>
      have h := (delimited_rounds (delimited_stopTurn hstep) a).weaken
      intro s b rest hs
      rw [elements, untilStop_eq] at hs
      obtain ⟨front, hfront, hlength, hmore⟩ := h hs
      exact ⟨front, hfront, hlength, fun more => (untilStop_eq ..).trans (hmore more)⟩

end Elements

theorem delimited_takeExact (n : Nat) : Delimited n (takeExact n) := by
  intro s front rest h
  rw [takeExact] at h
  split at h
  case isTrue hlength =>
    cases h
    refine ⟨s.take n, (List.take_append_drop n s).symm, hlength.ge, fun more => ?_⟩
    have happend := takeExact_append (s.take n) more
    rwa [hlength] at happend
  case isFalse => cases h

theorem delimited_readArgument (info : Nat) : Delimited 0 (readArgument info) := by
  have hnumber (width : Nat) : Delimited 0 (readBigEndian width) := by
    refine (delimited_takeExact width).weaken.bind (fun front => .pure (ofBigEndian front)) fun s => ?_
    rw [readBigEndian]
    cases takeExact width s <;> rfl
  have hwide := (hnumber (Nat.pow 2 (info - 24))).map some
  have hall := Delimited.ite (c := info < 24) (.pure (some info))
    (.ite (c := info < 28) hwide (.ite (c := info = 31) (.pure none) .fail))
  convert hall using 2 with s
  rw [readArgument]
  cases readBigEndian (Nat.pow 2 (info - 24)) s <;> rfl

/-- What the rest of a head of the last major kind says. -/
def specialHead (info : Nat) : Option Nat → Head
  | some n =>
      match info with
      | 25 => .float (Binary.singleOfHalf n)
      | 26 => .float (Float32.ofBits (UInt32.ofNat n))
      | 27 => .float (Binary.singleOfDouble (Float.ofBits (UInt64.ofNat n)))
      | _ => .simple n
  | none => .stop

theorem pullSpecial_eq (info : Nat) (s : List UInt8) :
    pullSpecial info s = (readArgument info s).map fun (n, rest) => (specialHead info n, rest) := by
  unfold pullSpecial
  rcases readArgument info s with - | ⟨- | n, rest⟩
  · split <;> simp_all
  · split <;> simp_all [specialHead]
  · split <;> simp_all [specialHead]

theorem delimited_pull : Delimited 1 pull := by
  refine .cons (g := fun b s =>
    if b.toNat / 32 = 7 then pullSpecial (b.toNat % 32) s
    else (readArgument (b.toNat % 32) s).bind fun r =>
      (headOf (b.toNat / 32) r.1).map fun head => (head, r.2)) (fun b => .ite ?_ ?_) rfl fun b s => ?_
  · convert (delimited_readArgument (b.toNat % 32)).map (specialHead (b.toNat % 32)) using 2 with s
    exact pullSpecial_eq _ s
  · exact (delimited_readArgument _).bind (fun argument => .ofOption (headOf _ argument)) fun _ => rfl
  · rw [pull]
    cases readArgument (b.toNat % 32) s <;> rfl

end Terrarium.Cbor
