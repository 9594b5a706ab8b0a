import Terrarium.Proofs.ItemRoundTrip

namespace Terrarium.Cbor

variable {α β σ ι δ : Type}

theorem Steps.of_forall₂ {R : ι → δ → Prop} {step : σ → List UInt8 → Reading σ}
    {written : ι → List UInt8} {add : σ → δ → σ}
    (hstep : ∀ a i d, R i d → Restores (step a) (written i) (add a d)) {items : List ι}
    {data : List δ} (h : List.Forall₂ R items data) (a : σ) :
    Steps step a (items.map written) (data.foldl add a) := by
  induction h generalizing a with
  | nil => exact .nil a
  | cons hfirst _ ih => exact .cons (hstep a _ _ hfirst) (ih _)

theorem mapM_of_some {f : α → Option β} {g : α → β} {l : List α} (h : ∀ a ∈ l, f a = some (g a)) :
    l.mapM f = some (l.map g) := by
  induction l with
  | nil => rfl
  | cons a l ih =>
      rw [List.mapM_cons, h a List.mem_cons_self, ih fun b hb => h b (List.mem_cons_of_mem a hb)]
      rfl

theorem mapM_congr {f g : α → Option β} {l : List α} (h : ∀ a ∈ l, f a = g a) :
    l.mapM f = l.mapM g := by
  induction l with
  | nil => rfl
  | cons a l ih =>
      obtain ⟨ha, hl⟩ := List.forall_mem_cons.mp h
      rw [List.mapM_cons, List.mapM_cons, ha, ih hl]

theorem mapM_eq_none {f : α → Option β} {l : List α} {a : α} (ha : a ∈ l)
    (hf : f a = none) : l.mapM f = none := by
  induction l with
  | nil => cases ha
  | cons b l ih =>
      rw [List.mapM_cons]
      rcases List.mem_cons.mp ha with rfl | ha
      · rw [hf]
        rfl
      · rw [ih ha]
        cases f b <;> rfl

namespace Datum

theorem read_nil (depth : Nat) : read depth [] = none := by cases depth <;> rfl

theorem restores_float (depth : Nat) (x : Float32) :
    Restores (read depth) (writeFloat x) (float x) := by
  intro _ rest
  cases depth <;> rw [read, readWith, pull_writeFloat]

theorem restores_unsigned (depth : Nat) (n : UInt64) :
    Restores (read depth) (writeUnsigned n.toNat) (unsigned n) := by
  intro _ rest
  cases depth <;> rw [read, readWith, pull_writeUnsigned]

theorem restores_text (depth : Nat) (t : String) : Restores (read depth) (writeText t) (text t) := by
  intro hlength rest
  have ht := Nat.lt_of_le_of_lt (length_writeText t) hlength
  cases depth <;> simp only [read, readWith, pull_writeText ht, textAfter_bytes, Option.map_some]

/-- Reads an item of an array. -/
def pushItem (depth : Nat) (acc : Array Datum) (s : List UInt8) : Reading (Array Datum) :=
  (read depth s).map fun (item, rest) => (acc.push item, rest)

theorem steps_pushItem {depth : Nat} {items : List (List UInt8)} {data : List Datum}
    (h : List.Forall₂ (Restores (read depth)) items data) :
    Steps (pushItem depth) #[] items data.toArray := by
  have hsteps : Steps (pushItem depth) #[] (items.map id) (data.foldl Array.push #[]) :=
    .of_forall₂ (fun acc _ _ hitem => hitem.map acc.push) h #[]
  rwa [List.map_id, List.foldl_push_eq_append', Array.empty_append] at hsteps

theorem restores_array {depth : Nat} {items : List (List UInt8)} {data : List Datum}
    (h : List.Forall₂ (Restores (read depth)) items data) :
    Restores (read (depth + 1)) (writeArray items) (array data) := by
  have hsteps := steps_pushItem h
  have hitems : ∀ s ∈ items, s ≠ [] :=
    hsteps.ne_nil fun _ => by rw [pushItem, read_nil, Option.map_none]
  intro hlength rest
  have hpull : pull (writeArray items ++ rest) = some (.array (some items.length), _) :=
    pull_items (by decide) rfl hitems hlength rest
  have helements := hsteps.restores_times (length_lt_of_append hlength).2 rest
  rw [read, readWith, hpull]
  exact congrArg (Option.map fun r => (array r.1.toList, r.2)) helements

def record (data : List (String × Datum)) : Datum := map (data.map fun d => (text d.1, d.2))

/-- A field of a record has the same name in its tree, and its item is read as the tree there. -/
structure Holds (depth : Nat) (f : String × List UInt8) (d : String × Datum) : Prop where
  name : d.1 = f.1
  item : Restores (read depth) f.2 d.2

theorem Holds.reads {depth : Nat} {f : String × List UInt8} {d : String × Datum}
    (h : Holds depth f d) (hlength : (writeEntry f).length < UInt64.size) (rest : List UInt8) :
    read depth (writeEntry f ++ rest) = some (text d.1, f.2 ++ rest) ∧
      read depth (f.2 ++ rest) = some (d.2, rest) := by
  obtain ⟨hname, hitem⟩ := length_lt_of_append hlength
  rw [writeEntry, List.append_assoc, h.name]
  exact ⟨restores_text depth f.1 hname (f.2 ++ rest), h.item hitem rest⟩

/-- Reads an entry of a map. -/
def pushEntry (depth : Nat) (acc : Array (Datum × Datum)) (s : List UInt8) :
    Reading (Array (Datum × Datum)) :=
  match read depth s with
  | none => none
  | some (key, s) => (read depth s).map fun (value, rest) => (acc.push (key, value), rest)

theorem restores_pushEntry {depth : Nat} {k v : List UInt8} {key value : Datum}
    (hkey : Restores (read depth) k key) (hvalue : Restores (read depth) v value)
    (acc : Array (Datum × Datum)) :
    Restores (pushEntry depth acc) (k ++ v) (acc.push (key, value)) := by
  intro hlength rest
  obtain ⟨hk, hv⟩ := length_lt_of_append hlength
  rw [List.append_assoc, pushEntry, hkey hk]
  exact congrArg (Option.map fun r => (acc.push (key, r.1), r.2)) (hvalue hv rest)

theorem Holds.restores_pushEntry {depth : Nat} {f : String × List UInt8} {d : String × Datum}
    (h : Holds depth f d) (acc : Array (Datum × Datum)) :
    Restores (pushEntry depth acc) (writeEntry f) (acc.push (text d.1, d.2)) := by
  rw [h.name]
  exact Datum.restores_pushEntry (restores_text depth f.1) h.item acc

theorem restores_record {depth : Nat} {fields : List (String × List UInt8)}
    {data : List (String × Datum)} (h : List.Forall₂ (Holds depth) fields data) :
    Restores (read (depth + 1)) (writeRecord fields) (record data) := by
  have hsteps : Steps (pushEntry depth) #[] (fields.map writeEntry)
      (data.foldl (fun acc d => acc.push (text d.1, d.2)) #[]) :=
    .of_forall₂ (fun acc _ _ hentry => hentry.restores_pushEntry acc) h #[]
  rw [List.foldl_push_eq_append, Array.empty_append] at hsteps
  intro hlength rest
  have hpull := pull_writeRecord hlength rest
  rw [writeRecord_eq] at hlength
  have helements := hsteps.restores_times (length_lt_of_append hlength).2 rest
  rw [List.length_map] at helements
  rw [read, readWith, hpull]
  exact congrArg (Option.map fun r => (map r.1.toList, r.2)) helements

section Fields

variable {data : List (String × Datum)}

/-- The tree under a name, if there is just one. -/
def sole? (data : List (String × Datum)) (name : String) : Option Datum :=
  match data.filter fun d => d.1 = name with
  | [d] => some d.2
  | _ => none

theorem length_filter_name (data : List (String × Datum)) (name : String) :
    (data.filter fun d => d.1 = name).length = (data.map Prod.fst).count name := by
  rw [List.count_eq_countP, List.countP_map, List.countP_eq_length_filter]
  rfl

theorem sole?_eq_some {d : String × Datum} (hd : d ∈ data)
    (hcount : (data.map Prod.fst).count d.1 = 1) : sole? data d.1 = some d.2 := by
  rw [← length_filter_name, List.length_eq_one_iff] at hcount
  obtain ⟨d', hfilter⟩ := hcount
  have hmem : d ∈ data.filter fun e => e.1 = d.1 :=
    List.mem_filter.mpr ⟨hd, decide_eq_true rfl⟩
  rw [hfilter, List.mem_singleton] at hmem
  rw [sole?, hfilter, hmem]

theorem sole?_eq_none {name : String} (hcount : (data.map Prod.fst).count name ≠ 1) :
    sole? data name = none := by
  rw [← length_filter_name] at hcount
  rw [sole?]
  split
  · rename_i hfilter
    rw [hfilter] at hcount
    exact absurd rfl hcount
  · rfl

theorem only?_eq_sole? {names : List String} (hnames : names.Nodup) (p : Fin names.length) :
    only? p (data.map fun d => (names.idxOf d.1, d.2)) = sole? data (names.get p) := by
  have hplace (d : String × Datum) : names.idxOf d.1 = p ↔ d.1 = names.get p := by
    constructor
    · intro h
      rw [List.get_eq_getElem, ← List.getElem_idxOf (h.trans_lt p.isLt)]
      simp only [h]
    · intro h
      rw [h]
      exact hnames.idxOf_getElem p p.isLt
  simp only [only?, sole?, List.filter_map, Function.comp_def, hplace]
  generalize List.filter (fun d => decide (d.1 = names.get p)) data = l
  match l with
  | [] => rfl
  | [_] => rfl
  | _ :: _ :: _ => rfl

theorem fields?_eq {names : List String} (hnames : names.Nodup) :
    fields? names (record data) = names.mapM (sole? data) := by
  have hplaced : (data.map fun d => (text d.1, d.2)).mapM
      (fun e => (place? names e.1).map fun p => (p, e.2)) =
      some (data.map fun d => (names.idxOf d.1, d.2)) := by
    rw [List.mapM_map]
    exact mapM_of_some fun d _ => rfl
  have hget := congrArg (List.mapM (sole? data)) (List.map_get_finRange names)
  rw [List.mapM_map] at hget
  rw [record, fields?, hplaced, ← hget]
  dsimp only
  rw [← List.map_coe_finRange_eq_range, List.mapM_map]
  exact mapM_congr fun p _ => only?_eq_sole? hnames p

theorem fields?_eq_some {labels : List (String × Datum)} (hnames : (data.map Prod.fst).Nodup)
    (hcount : ∀ name ∈ data.map Prod.fst, (labels.map Prod.fst).count name = 1)
    (hlabels : ∀ d ∈ labels, d.1 ∈ data.map Prod.fst → d ∈ data) :
    fields? (data.map Prod.fst) (record labels) = some (data.map Prod.snd) := by
  rw [fields?_eq hnames, List.mapM_map]
  refine mapM_of_some fun d hd => ?_
  have hname := List.mem_map_of_mem (f := Prod.fst) hd
  have hone := hcount d.1 hname
  obtain ⟨d', hd', heq⟩ := List.mem_map.mp (List.count_pos_iff.mp (by rw [hone]; decide))
  have hsame : d' = d := List.inj_on_of_nodup_map hnames (hlabels d' hd' (heq ▸ hname)) hd heq
  exact sole?_eq_some (hsame ▸ hd') hone

theorem fields?_eq_none {names : List String} (hnames : names.Nodup) {name : String}
    (hname : name ∈ names) (hcount : (data.map Prod.fst).count name ≠ 1) :
    fields? names (record data) = none := by
  rw [fields?_eq hnames]
  exact mapM_eq_none hname (sole?_eq_none hcount)

theorem fields?_filter {names : List String} (hnames : names.Nodup) {key : String}
    (hkey : key ∉ names) :
    fields? names (record (data.filter fun d => d.1 ≠ key)) = fields? names (record data) := by
  rw [fields?_eq hnames, fields?_eq hnames]
  refine mapM_congr fun name hname => ?_
  have hfilter : (data.filter fun d => d.1 ≠ key).filter (fun d => d.1 = name) =
      data.filter fun d => d.1 = name := by
    rw [List.filter_filter]
    refine List.filter_congr fun d _ => ?_
    have hother : d.1 = name → d.1 ≠ key := fun heq hd => hkey (hd ▸ heq ▸ hname)
    simpa using hother
  rw [sole?, sole?, hfilter]

theorem fields?_record (h : (data.map Prod.fst).Nodup) :
    fields? (data.map Prod.fst) (record data) = some (data.map Prod.snd) :=
  fields?_eq_some h (fun _ hname => List.count_eq_one_of_mem h hname) fun _ hd _ => hd

end Fields

end Datum

end Terrarium.Cbor
