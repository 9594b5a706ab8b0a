import Terrarium.Cbor.Datum
import Terrarium.Proofs.HeadRoundTrip

namespace Terrarium.Cbor

variable {α β σ : Type}

theorem length_lt_of_append {s t : List UInt8} (h : (s ++ t).length < UInt64.size) :
    s.length < UInt64.size ∧ t.length < UInt64.size := by
  rw [List.length_append] at h
  omega

/-- A reader takes bytes for a value, whatever follows them. No head says a length of more than 64
bits, so this is asked of shorter bytes only. -/
def Restores (read : List UInt8 → Reading α) (s : List UInt8) (a : α) : Prop :=
  s.length < UInt64.size → ∀ rest, read (s ++ rest) = some (a, rest)

theorem Restores.map {read : List UInt8 → Reading α} {s : List UInt8} {a : α}
    (h : Restores read s a) (f : α → β) :
    Restores (fun s => (read s).map fun (a, rest) => (f a, rest)) s (f a) := by
  intro hs rest
  dsimp only
  rw [h hs rest, Option.map_some]

theorem Restores.ne_nil {read : List UInt8 → Reading α} {s : List UInt8} {a : α}
    (h : Restores read s a) (hempty : read [] = none) : s ≠ [] := by
  rintro rfl
  have hread := h (by decide) []
  rw [List.append_nil, hempty] at hread
  cases hread

/-- Items that are read one after the other, each by one step. -/
inductive Steps (step : σ → List UInt8 → Reading σ) : σ → List (List UInt8) → σ → Prop where
  | nil (a : σ) : Steps step a [] a
  | cons {a a' b : σ} {s : List UInt8} {items : List (List UInt8)} :
      Restores (step a) s a' → Steps step a' items b → Steps step a (s :: items) b

namespace Steps

variable {step : σ → List UInt8 → Reading σ} {a b : σ} {items : List (List UInt8)}

theorem restores_times (h : Steps step a items b) :
    Restores (times step items.length a) items.flatten b := by
  induction h with
  | nil a => exact fun _ rest => rfl
  | cons hstep _ ih =>
      intro hlength rest
      rw [List.flatten_cons] at hlength ⊢
      obtain ⟨hfirst, hrest⟩ := length_lt_of_append hlength
      rw [List.length_cons, times, List.append_assoc, hstep hfirst]
      exact ih hrest rest

theorem ne_nil (h : Steps step a items b) (hempty : ∀ a, step a [] = none) : ∀ s ∈ items, s ≠ [] := by
  induction h with
  | nil a => exact fun s hs => absurd hs List.not_mem_nil
  | cons hstep _ ih =>
      intro s hs
      rcases List.mem_cons.mp hs with rfl | hs
      · exact hstep.ne_nil (hempty _)
      · exact ih s hs

end Steps

theorem pullPast_of_pull {passes : UInt64 → Bool} {s rest : List UInt8} {head : Head}
    (h : pull s = some (head, rest)) (hhead : ∀ n, head ≠ .tag n) :
    pullPast passes s s = some (head, rest) := by
  cases s with
  | nil => cases h
  | cons b s =>
      rw [pullPast, h]
      split
      case h_1 htag =>
        cases htag
        exact absurd rfl (hhead _)
      case h_2 => rfl

theorem pull_writeUnsigned (n : UInt64) (rest : List UInt8) :
    pull (writeUnsigned n.toNat ++ rest) = some (.unsigned n, rest) :=
  pull_writeHead (by decide) n.toNat_lt (by rw [headOf, UInt64.ofNat_toNat]) rest

theorem restores_word (n : UInt64) : Restores readWord (writeUnsigned n.toNat) n := by
  intro _ rest
  have hpull : pullNumber (writeUnsigned n.toNat ++ rest) = _ :=
    pullPast_of_pull (pull_writeUnsigned n rest) (fun _ h => by cases h)
  rw [readWord, hpull]

theorem restores_word32 (n : UInt32) : Restores readWord32 (writeUnsigned n.toNat) n := by
  intro hlength rest
  have hread := restores_word n.toUInt64 hlength rest
  rw [UInt32.toNat_toUInt64] at hread
  rw [readWord32, hread]
  simp only [UInt32.toNat_toUInt64, if_pos n.toNat_lt, UInt32.ofNat_toNat]

theorem textOf?_bytes (t : String) : textOf? t.toByteArray.data.toList = some t := by
  rw [textOf?, Array.toArray_toList, String.fromUTF8?]
  exact dif_pos t.isValidUTF8

theorem length_bytes (t : String) : t.toByteArray.data.toList.length = t.utf8ByteSize := rfl

theorem takeExact_bytes (t : String) (rest : List UInt8) :
    takeExact t.utf8ByteSize (t.toByteArray.data.toList ++ rest) =
      some (t.toByteArray.data.toList, rest) :=
  takeExact_append t.toByteArray.data.toList rest

theorem textAfter_bytes (t : String) (rest : List UInt8) :
    textAfter (some t.utf8ByteSize) (t.toByteArray.data.toList ++ rest) = some (t, rest) := by
  rw [textAfter]
  simp only [takeExact_bytes, textOf?_bytes, Option.map_some]

theorem length_writeText (t : String) : t.utf8ByteSize ≤ (writeText t).length := by
  rw [writeText, List.length_append, length_bytes]
  exact Nat.le_add_left _ _

theorem pull_writeText {t : String} (ht : t.utf8ByteSize < UInt64.size) (rest : List UInt8) :
    pull (writeText t ++ rest) =
      some (.text (some t.utf8ByteSize), t.toByteArray.data.toList ++ rest) := by
  rw [writeText, List.append_assoc]
  exact pull_writeHead (by decide) ht rfl _

theorem restores_text (t : String) : Restores readText (writeText t) t := by
  intro hlength rest
  have hpull : pullUntagged (writeText t ++ rest) = _ :=
    pullPast_of_pull (pull_writeText (Nat.lt_of_le_of_lt (length_writeText t) hlength) rest)
      (fun _ h => by cases h)
  rw [readText, hpull]
  exact textAfter_bytes t rest

section Names

variable {name : String} (hname : name.utf8ByteSize ≤ nameLimit)

include hname

theorem pullUntagged_name (rest : List UInt8) :
    pullUntagged (writeText name ++ rest) =
      some (.text (some name.utf8ByteSize), name.toByteArray.data.toList ++ rest) :=
  pullPast_of_pull (pull_writeText (Nat.lt_of_le_of_lt hname (by decide)) rest)
    (fun _ h => by cases h)

theorem nameAfter_bytes (rest : List UInt8) :
    nameAfter (.text (some name.utf8ByteSize)) (name.toByteArray.data.toList ++ rest) =
      some (some name, rest) := by
  rw [nameAfter, if_pos hname, textAfter_bytes, Option.map_some]

theorem readName_writeText (rest : List UInt8) :
    readName (writeText name ++ rest) = some (some name, rest) := by
  rw [readName, pullUntagged_name hname]
  exact nameAfter_bytes hname rest

end Names

theorem length_le_flatten {items : List (List UInt8)} (hitems : ∀ s ∈ items, s ≠ []) :
    items.length ≤ items.flatten.length := by
  induction items with
  | nil => exact Nat.le_refl 0
  | cons s items ih =>
      have hpos := List.length_pos_iff.mpr (hitems s List.mem_cons_self)
      have hrest := ih fun s hs => hitems s (List.mem_cons_of_mem _ hs)
      rw [List.length_cons, List.flatten_cons, List.length_append]
      omega

theorem pull_items {major : Nat} {head : Head} {items : List (List UInt8)} (hmajor : major < 7)
    (hhead : headOf major (some items.length) = some head) (hitems : ∀ s ∈ items, s ≠ [])
    (hlength : (writeHead major items.length ++ items.flatten).length < UInt64.size)
    (rest : List UInt8) :
    pull (writeHead major items.length ++ items.flatten ++ rest) =
      some (head, items.flatten ++ rest) := by
  have hcount := length_le_flatten hitems
  rw [List.length_append] at hlength
  rw [List.append_assoc]
  exact pull_writeHead hmajor (by omega) hhead _

/-- The bytes of one entry of a record. -/
def writeEntry (f : String × List UInt8) : List UInt8 := writeText f.1 ++ f.2

theorem writeEntry_ne_nil (f : String × List UInt8) : writeEntry f ≠ [] := by
  intro h
  rw [writeEntry, writeText, List.append_assoc, List.append_eq_nil_iff] at h
  exact writeHead_ne_nil _ _ h.1

theorem writeRecord_eq (fields : List (String × List UInt8)) :
    writeRecord fields =
      writeHead 5 (fields.map writeEntry).length ++ (fields.map writeEntry).flatten := by
  rw [writeRecord, List.length_map, ← List.flatMap_def]
  rfl

theorem pull_writeRecord {fields : List (String × List UInt8)}
    (hlength : (writeRecord fields).length < UInt64.size) (rest : List UInt8) :
    pull (writeRecord fields ++ rest) =
      some (.map (some fields.length), (fields.map writeEntry).flatten ++ rest) := by
  rw [writeRecord_eq] at hlength ⊢
  refine pull_items (by decide) (by rw [List.length_map]; rfl) ?_ hlength rest
  intro s hs
  obtain ⟨f, -, rfl⟩ := List.mem_map.mp hs
  exact writeEntry_ne_nil f

/-- Reads a name, and then what it names. -/
def namedStep (entry : Option String → σ → List UInt8 → Reading σ) (a : σ) (s : List UInt8) :
    Reading σ :=
  match readName s with
  | none => none
  | some (n, s) => entry n a s

theorem restores_entry {entry : Option String → σ → List UInt8 → Reading σ} {name : String}
    {s : List UInt8} {a b : σ} (hname : name.utf8ByteSize ≤ nameLimit)
    (h : Restores (entry (some name) a) s b) :
    Restores (namedStep entry a) (writeEntry (name, s)) b := by
  intro hlength rest
  rw [writeEntry] at hlength ⊢
  rw [List.append_assoc, namedStep, readName_writeText hname]
  exact h (length_lt_of_append hlength).2 rest

theorem restores_fill {read : List UInt8 → Reading α} {s : List UInt8} {a : α}
    (h : Restores read s a) : Restores (fill none read) s (some a) :=
  h.map some

theorem restores_record {depth : Nat}
    {entry : (depth : Nat) → Option String → σ → List UInt8 → Reading σ} {a b : σ}
    {fields : List (String × List UInt8)}
    (h : Steps (namedStep (entry depth)) a (fields.map writeEntry) b) :
    Restores (record (depth + 1) entry a) (writeRecord fields) b := by
  intro hlength rest
  have hhead : mapHead (writeRecord fields ++ rest) =
      some (some fields.length, (fields.map writeEntry).flatten ++ rest) := by
    rw [mapHead, pullUntagged,
      pullPast_of_pull (pull_writeRecord hlength rest) (fun _ h => by cases h)]
  rw [writeRecord_eq] at hlength
  have hentries := h.restores_times (length_lt_of_append hlength).2 rest
  rw [List.length_map] at hentries
  rw [record, hhead]
  exact hentries

section Choices

variable {depth : Nat} {content : (depth : Nat) → Option String → List UInt8 → Reading α}
  {name : String} {s : List UInt8} {a : α}

theorem restores_bareChoice (hname : name.utf8ByteSize ≤ nameLimit)
    (h : Restores (content depth (some name)) [] a) :
    Restores (choice (depth + 1) content) (writeText name) a := by
  intro _ rest
  simp only [choice, pullUntagged_name hname, nameAfter_bytes hname]
  exact h (by decide) rest

theorem restores_choice (hname : name.utf8ByteSize ≤ nameLimit)
    (h : Restores (content depth (some name)) s a) :
    Restores (choice (depth + 1) content) (writeChoice name s) a := by
  intro hlength rest
  have hhead : pullUntagged (writeChoice name s ++ rest) =
      some (.map (some 1), writeText name ++ (s ++ rest)) := by
    rw [writeChoice, pullUntagged,
      pullPast_of_pull (pull_writeRecord hlength rest) (fun _ h => by cases h), List.map_singleton,
      List.flatten_singleton, writeEntry, List.append_assoc]
    rfl
  rw [writeChoice, writeRecord_eq, List.map_singleton, List.flatten_singleton, writeEntry] at hlength
  simp only [choice, hhead, readName_writeText hname]
  exact h (length_lt_of_append (length_lt_of_append hlength).2).2 rest

end Choices

end Terrarium.Cbor
