import Terrarium.Proofs.ItemForms

/-!
Maps whose entries stand in any order, among others that mean nothing. A step that reads an entry makes
something or nothing of it, and a map is read as its entries are, one after the other; a record held as
a tree has the fields whose names stand in it once.
-/
namespace Terrarium.Cbor

variable {α σ ι κ : Type}

/-- How many containers may stand inside each other under a name that means nothing. -/
def spareDepth : Nat := 100

/-- An entry of a map: its name, the head in front of the name and the item under it. -/
structure Entry where
  name : String
  head : List UInt8
  value : List UInt8

namespace Entry

def bytes (e : Entry) : List UInt8 := e.head ++ e.name.toByteArray.data.toList ++ e.value

/-- The name of an entry and the item under it. -/
def field (e : Entry) : String × List UInt8 := (e.name, e.value)

/-- An entry may be one of some fields or hold any other item; its name may have a head of any
width. -/
structure Fits (fields : List (String × List UInt8)) (e : Entry) : Prop where
  head : WideHead 3 e.name.utf8ByteSize e.head
  value : e.field ∈ fields ∨ ∃ d, Datum.Spelling spareDepth d e.value

/-- The entries are the fields, each of them once, in any order and among others with other
names. -/
def Complete (fields : List (String × List UInt8)) (entries : List Entry) : Prop :=
  ((entries.filter fun e => e.name ∈ fields.map Prod.fst).map field).Perm fields

/-- The name of a field is missing among the entries, or stands there more than once. -/
def Faulty (fields : List (String × List UInt8)) (entries : List Entry) : Prop :=
  ∃ name ∈ fields.map Prod.fst, (entries.map Entry.name).count name ≠ 1

variable {fields : List (String × List UInt8)} {entries : List Entry}

instance : Decidable (Complete fields entries) := inferInstanceAs (Decidable (List.Perm _ _))

instance : Decidable (Faulty fields entries) := inferInstanceAs (Decidable (∃ _ ∈ _, _))

theorem Complete.mem (h : Complete fields entries) {e : Entry} (he : e ∈ entries)
    (hname : e.name ∈ fields.map Prod.fst) : e.field ∈ fields :=
  h.mem_iff.mp (List.mem_map_of_mem (List.mem_filter.mpr ⟨he, decide_eq_true hname⟩))

theorem Complete.cons {e : Entry} (h : Complete fields entries)
    (hname : e.name ∉ fields.map Prod.fst) : Complete fields (e :: entries) := by
  rw [Complete, List.filter_cons_of_neg (by simpa using hname)]
  exact h

theorem value_eq (hfields : (fields.map Prod.fst).Nodup) {e : Entry} (he : e.field ∈ fields)
    {s : List UInt8} (hs : (e.name, s) ∈ fields) : e.value = s :=
  congrArg Prod.snd (List.inj_on_of_nodup_map hfields he hs rfl)

theorem Complete.count (h : Complete fields entries) (hfields : (fields.map Prod.fst).Nodup)
    {name : String} (hname : name ∈ fields.map Prod.fst) :
    (entries.map Entry.name).count name = 1 := by
  have hnames := (h.map Prod.fst).count_eq name
  rw [List.count_eq_one_of_mem hfields hname, List.map_map, List.count_eq_countP, List.countP_map,
    List.countP_filter] at hnames
  rw [List.count_eq_countP, List.countP_map, ← hnames]
  refine List.countP_congr fun e _ => ?_
  simp only [Function.comp_apply, field, beq_iff_eq, Bool.and_eq_true, decide_eq_true_eq]
  exact ⟨fun heq => ⟨heq, heq ▸ hname⟩, And.left⟩

end Entry

/-- The bytes of a map with these entries, in their order. -/
def Lays (fields : List (String × List UInt8)) (entries : List Entry) (s : List UInt8) : Prop :=
  (∀ e ∈ entries, e.Fits fields) ∧ ∃ head, WideHead 5 entries.length head ∧
    s = head ++ (entries.map Entry.bytes).flatten

/-- An entry as it is written. -/
def Entry.ofField (f : String × List UInt8) : Entry := ⟨f.1, writeHead 3 f.1.utf8ByteSize, f.2⟩

theorem Entry.complete_ofField (fields : List (String × List UInt8)) :
    Complete fields (fields.map ofField) := by
  have hall : (fields.map ofField).filter (fun e => e.name ∈ fields.map Prod.fst) =
      fields.map ofField := by
    refine List.filter_eq_self.mpr fun e he => ?_
    obtain ⟨f, hf, rfl⟩ := List.mem_map.mp he
    exact decide_eq_true (List.mem_map_of_mem hf)
  rw [Complete, hall, List.map_map]
  exact .of_eq (List.map_id fields)

theorem lays_writeRecord {fields entries : List (String × List UInt8)}
    (hlength : entries.length < UInt64.size)
    (hnames : ∀ name ∈ entries.map Prod.fst, name.utf8ByteSize < UInt64.size)
    (hvalues : ∀ f ∈ entries, f ∈ fields ∨ ∃ d, Datum.Spelling spareDepth d f.2) :
    Lays fields (entries.map Entry.ofField) (writeRecord entries) := by
  refine ⟨fun e he => ?_, writeHead 5 (entries.map Entry.ofField).length, ?_, ?_⟩
  · obtain ⟨f, hf, rfl⟩ := List.mem_map.mp he
    exact ⟨wideHead_writeHead (hnames f.1 (List.mem_map_of_mem hf)) 3, hvalues f hf⟩
  · rw [List.length_map]
    exact wideHead_writeHead hlength 5
  · rw [writeRecord_eq, List.length_map, List.length_map, List.map_map]
    rfl

theorem exists_forall₂ {β : Type} {R : α → β → Prop} {l : List α} (h : ∀ a ∈ l, ∃ b, R a b) :
    ∃ l', List.Forall₂ R l l' := by
  induction l with
  | nil => exact ⟨[], .nil⟩
  | cons a l ih =>
      obtain ⟨⟨b, hb⟩, hl⟩ := List.forall_mem_cons.mp h
      obtain ⟨l', hl'⟩ := ih hl
      exact ⟨b :: l', .cons hb hl'⟩

theorem map_eq_of_forall₂ {β γ : Type} {R : α → β → Prop} {f : α → γ} {g : β → γ}
    (hR : ∀ a b, R a b → g b = f a) {l : List α} {l' : List β} (h : List.Forall₂ R l l') :
    l'.map g = l.map f := by
  induction h with
  | nil => rfl
  | cons hfirst _ ih => rw [List.map_cons, List.map_cons, hR _ _ hfirst, ih]

theorem forall_of_forall₂ {β : Type} {R : α → β → Prop} {P : β → Prop} (hR : ∀ a b, R a b → P b)
    {l : List α} {l' : List β} (h : List.Forall₂ R l l') : ∀ b ∈ l', P b := by
  induction h with
  | nil => exact List.forall_mem_nil P
  | cons hfirst _ ih => exact List.forall_mem_cons.mpr ⟨hR _ _ hfirst, ih⟩

section Deciding

/-- A reader makes something or nothing of bytes, whatever follows them. -/
def Decides (read : List UInt8 → Reading α) (s : List UInt8) (o : Option α) : Prop :=
  s.length < UInt64.size → ∀ rest, read (s ++ rest) = o.map fun a => (a, rest)

theorem Restores.decides {read : List UInt8 → Reading α} {s : List UInt8} {a : α}
    (h : Restores read s a) : Decides read s (some a) := h

theorem Decides.map {β : Type} {read : List UInt8 → Reading α} {s : List UInt8} {o : Option α}
    (h : Decides read s o) (f : α → β) :
    Decides (fun s => (read s).map fun (a, rest) => (f a, rest)) s (o.map f) := by
  intro hlength rest
  dsimp only
  rw [h hlength, Option.map_map, Option.map_map]
  rfl

/-- What is put into a slot that has to be vacant. -/
def filled : Option α → Option α → Option (Option α)
  | none, o => o.map some
  | some _, _ => none

theorem Decides.fill {read : List UInt8 → Reading α} {s : List UInt8} {o : Option α}
    (h : Decides read s o) (slot : Option α) : Decides (fill slot read) s (filled slot o) := by
  cases slot with
  | none => exact h.map some
  | some a => exact fun _ _ => rfl

theorem decides_times {step : σ → List UInt8 → Reading σ} {act : σ → ι → Option σ}
    {R : κ → ι → Prop} {written : κ → List UInt8}
    (hstep : ∀ a k i, R k i → Decides (step a) (written k) (act a i))
    {items : List κ} {labels : List ι} (h : List.Forall₂ R items labels) (a : σ) :
    Decides (times step items.length a) (items.map written).flatten (labels.foldlM act a) := by
  induction h generalizing a with
  | nil => exact fun _ rest => rfl
  | @cons k i items labels hfirst _ ih =>
      intro hlength rest
      rw [List.map_cons, List.flatten_cons] at hlength ⊢
      obtain ⟨hk, hitems⟩ := length_lt_of_append hlength
      rw [List.length_cons, times, List.append_assoc, hstep a k i hfirst hk, List.foldlM_cons]
      cases act a i with
      | none => rfl
      | some b => exact ih b hitems rest

theorem exists_decides_times {step : σ → List UInt8 → Reading σ} {items : List (List UInt8)}
    (hstep : ∀ e ∈ items, ∀ a, ∃ o, Decides (step a) e o) (a : σ) :
    ∃ o, Decides (times step items.length a) items.flatten o := by
  obtain ⟨labels, hlabels⟩ := exists_forall₂ (R := fun e (act : σ → Option σ) =>
    ∀ a, Decides (step a) e (act a)) fun e he => ⟨_, fun a => (hstep e he a).choose_spec⟩
  have htimes : Decides _ (items.map fun e => e).flatten (labels.foldlM (fun a act => act a) a) :=
    decides_times (fun a _ _ h => h a) hlabels a
  rw [List.map_id'] at htimes
  exact ⟨_, htimes⟩

theorem decides_record {depth : Nat}
    {entry : (depth : Nat) → Option String → σ → List UInt8 → Reading σ} {act : σ → ι → Option σ}
    {R : Entry → ι → Prop}
    (hstep : ∀ a e i, R e i → Decides (namedStep (entry depth) a) e.bytes (act a i))
    {entries : List Entry} {labels : List ι} (h : List.Forall₂ R entries labels)
    {head : List UInt8} (hhead : WideHead 5 entries.length head) (a : σ) :
    Decides (record (depth + 1) entry a) (head ++ (entries.map Entry.bytes).flatten)
      (labels.foldlM act a) := by
  intro hlength rest
  have hmap (tail : List UInt8) : mapHead (head ++ tail) = some (some entries.length, tail) := by
    rw [mapHead, pullUntagged,
      pullPast_of_pull (hhead.pull (by decide) rfl _) (fun _ h => by cases h)]
  rw [List.append_assoc, record, hmap]
  exact decides_times hstep h a (length_lt_of_append hlength).2 rest

theorem readName_eq {name : String} {head : List UInt8} (hhead : WideHead 3 name.utf8ByteSize head)
    (rest : List UInt8) :
    readName (head ++ (name.toByteArray.data.toList ++ rest)) =
      if name.utf8ByteSize ≤ nameLimit then some (some name, rest) else none := by
  have hpull : pull (head ++ (name.toByteArray.data.toList ++ rest)) =
      some (.text (some name.utf8ByteSize), name.toByteArray.data.toList ++ rest) :=
    hhead.pull (by decide) rfl _
  rw [readName, pullUntagged, pullPast_of_pull hpull (fun _ h => by cases h)]
  by_cases hname : name.utf8ByteSize ≤ nameLimit
  · rw [if_pos hname]
    exact nameAfter_bytes hname rest
  · rw [if_neg hname]
    exact if_neg hname

theorem Decides.named {entry : Option String → σ → List UInt8 → Reading σ} {a : σ} {e : Entry}
    (hhead : WideHead 3 e.name.utf8ByteSize e.head) {o : Option σ}
    (h : Decides (entry (some e.name) a) e.value o) :
    Decides (namedStep entry a) e.bytes (if e.name.utf8ByteSize ≤ nameLimit then o else none) := by
  intro hlength rest
  rw [Entry.bytes] at hlength ⊢
  rw [List.append_assoc, List.append_assoc, namedStep, readName_eq hhead]
  by_cases hname : e.name.utf8ByteSize ≤ nameLimit
  · rw [if_pos hname, if_pos hname]
    exact h (length_lt_of_append hlength).2 rest
  · rw [if_neg hname, if_neg hname]
    rfl

end Deciding

namespace Datum

section Spelled

/-- The head of an item that is spelled, and what stands behind it. -/
inductive Parts (depth : Nat) : Head → List UInt8 → Prop where
  | unsigned (n : UInt64) : Parts depth (.unsigned n) []
  | negative (n : UInt64) : Parts depth (.negative n) []
  | float (x : Float32) : Parts depth (.float x) []
  | simple (n : Nat) : Parts depth (.simple n) []
  | text (t : String) : Parts depth (.text (some t.utf8ByteSize)) t.toByteArray.data.toList
  | array {inner : Nat} (hinner : inner < depth) {items : List (List UInt8)}
      (hitems : ∀ s ∈ items, ∃ d, Spelling inner d s) :
      Parts depth (.array (some items.length)) items.flatten
  | map {inner : Nat} (hinner : inner < depth) {entries : List (List UInt8)}
      (hentries : ∀ e ∈ entries, ∃ key value d d', e = key ++ value ∧ Spelling inner d key ∧
        Spelling inner d' value) :
      Parts depth (.map (some entries.length)) entries.flatten

theorem Spelling.exists_parts {depth : Nat} {d : Datum} {s : List UInt8} (h : Spelling depth d s) :
    ∃ head front back, s = front ++ back ∧ (∀ rest, pull (front ++ rest) = some (head, rest)) ∧
      Parts depth head back := by
  cases h with
  | unsigned hs =>
      exact ⟨_, s, [], (List.append_nil s).symm, hs.pull (by decide) rfl, .unsigned _⟩
  | negative hn hs =>
      exact ⟨_, s, [], (List.append_nil s).symm, hs.pull (by decide) rfl, .negative _⟩
  | half hbits => exact ⟨_, _, [], (List.append_nil _).symm, pull_half hbits, .float _⟩
  | single bits => exact ⟨_, _, [], (List.append_nil _).symm, pull_single bits, .float _⟩
  | double bits => exact ⟨_, _, [], (List.append_nil _).symm, pull_double bits, .float _⟩
  | bool b =>
      cases b with
      | false => exact ⟨_, _, [], (List.append_nil _).symm, fun _ => rfl, .simple 20⟩
      | true => exact ⟨_, _, [], (List.append_nil _).symm, fun _ => rfl, .simple 21⟩
  | null => exact ⟨_, _, [], (List.append_nil _).symm, fun _ => rfl, .simple 22⟩
  | text hs => exact ⟨_, _, _, rfl, hs.pull (by decide) rfl, .text _⟩
  | @array inner items s hs hitems =>
      have hparts : Parts (inner + 1) (.array (some (items.map Prod.snd).length)) _ :=
        .array (Nat.lt_succ_self inner) fun s hs => by
          obtain ⟨i, hi, rfl⟩ := List.mem_map.mp hs
          exact ⟨i.1, hitems i hi⟩
      rw [List.length_map] at hparts
      exact ⟨_, s, _, rfl, hs.pull (by decide) rfl, hparts⟩
  | @map inner entries s hs hkeys hvalues =>
      have hparts : Parts (inner + 1)
          (.map (some (entries.map fun e => e.1.2 ++ e.2.2).length)) _ :=
        .map (Nat.lt_succ_self inner) fun s hs => by
          obtain ⟨e, he, rfl⟩ := List.mem_map.mp hs
          exact ⟨_, _, _, _, rfl, hkeys e he, hvalues e he⟩
      rw [List.length_map] at hparts
      exact ⟨_, s, _, rfl, hs.pull (by decide) rfl, hparts⟩

theorem Spelling.exists_decides {read : List UInt8 → Reading α} {g : Head → List UInt8 → Reading α}
    (hread : ∀ {s rest head}, pull s = some (head, rest) → (∀ n, head ≠ .tag n) →
      read s = g head rest)
    {depth : Nat} (hparts : ∀ head back, Parts depth head back → ∃ o, Decides (g head) back o)
    {d : Datum} {s : List UInt8} (h : Spelling depth d s) : ∃ o, Decides read s o := by
  obtain ⟨head, front, back, rfl, hpull, hback⟩ := h.exists_parts
  obtain ⟨o, ho⟩ := hparts head back hback
  refine ⟨o, fun hlength rest => ?_⟩
  have huntagged (n : UInt64) : head ≠ .tag n := by
    rintro rfl
    cases hback
  rw [List.append_assoc, hread (hpull _) huntagged]
  exact ho (length_lt_of_append hlength).2 rest

variable {depth : Nat} {d : Datum} {s : List UInt8}

theorem Spelling.exists_decides_readName (h : Spelling depth d s) : ∃ o, Decides readName s o := by
  refine h.exists_decides (g := nameAfter) (fun hpull huntagged => ?_) fun head back hparts => ?_
  · rw [readName, pullUntagged, pullPast_of_pull hpull huntagged]
  · cases hparts with
    | text t =>
        by_cases hname : t.utf8ByteSize ≤ nameLimit
        · exact ⟨some (some t), fun _ rest => nameAfter_bytes hname rest⟩
        · exact ⟨none, fun _ rest => if_neg hname⟩
    | _ => exact ⟨none, fun _ _ => rfl⟩

theorem Spelling.exists_decides_readWord (h : Spelling depth d s) : ∃ o, Decides readWord s o := by
  refine h.exists_decides (g := wordAfter) (fun hpull huntagged => ?_) fun head back hparts => ?_
  · rw [readWord_eq, pullNumber, pullPast_of_pull hpull huntagged]
    rfl
  · cases hparts with
    | unsigned n => exact ⟨some n, fun _ _ => rfl⟩
    | _ => exact ⟨none, fun _ _ => rfl⟩

end Spelled

section Records

variable {fields : List (String × List UInt8)} {data : List (String × Datum)} {depth : Nat}

/-- An entry is read as a name and a tree. -/
structure Reads (depth : Nat) (e : Entry) (d : String × Datum) : Prop where
  name : d.1 = e.name
  head : WideHead 3 e.name.utf8ByteSize e.head
  item : Restores (read depth) e.value d.2

theorem Reads.key {e : Entry} {d : String × Datum} (h : Reads depth e d) :
    Restores (read depth) (e.head ++ e.name.toByteArray.data.toList) (text d.1) := by
  have hkey : Spelling 0 (text e.name) (e.head ++ e.name.toByteArray.data.toList) := .text h.head
  rw [h.name]
  exact (hkey.exact (Nat.zero_le depth)).read

theorem exists_reads {e : Entry} (h : e.Fits fields) (hdepth : spareDepth ≤ depth)
    (hfields : List.Forall₂ (Holds depth) fields data) :
    ∃ d, Reads depth e d ∧ (e.field ∈ fields → d ∈ data) := by
  by_cases he : e.field ∈ fields
  · obtain ⟨n, hn, hfield⟩ := List.mem_iff_getElem.mp he
    obtain ⟨hlength, hholds⟩ := List.forall₂_iff_get.mp hfields
    have hd := hholds n hn (hlength ▸ hn)
    rw [List.get_eq_getElem, hfield] at hd
    exact ⟨_, ⟨hd.name, h.head, hd.item⟩, fun _ => List.getElem_mem _⟩
  · obtain ⟨d, hd⟩ := h.value.resolve_left he
    exact ⟨(e.name, d), ⟨rfl, h.head, (hd.exact hdepth).read⟩, fun h => absurd h he⟩

/-- Whatever entries are read as, they keep their names; those that are fields are read as the fields
are. -/
theorem exists_labels {entries : List Entry} (h : ∀ e ∈ entries, e.Fits fields)
    (hdepth : spareDepth ≤ depth) (hfields : List.Forall₂ (Holds depth) fields data) :
    ∃ labels, List.Forall₂ (Reads depth) entries labels ∧
      labels.map Prod.fst = entries.map Entry.name ∧
      (Entry.Complete fields entries → ∀ d ∈ labels, d.1 ∈ fields.map Prod.fst → d ∈ data) := by
  obtain ⟨labels, hlabels⟩ := exists_forall₂ (R := fun e d =>
      Reads depth e d ∧ (Entry.Complete fields entries → d.1 ∈ fields.map Prod.fst → d ∈ data))
    fun e he => by
      obtain ⟨d, hd, hmem⟩ := exists_reads (h e he) hdepth hfields
      exact ⟨d, hd, fun hcomplete hname => hmem (hcomplete.mem he (hd.name ▸ hname))⟩
  exact ⟨labels, hlabels.imp fun _ _ h => h.1, map_eq_of_forall₂ (fun _ _ h => h.1.name) hlabels,
    fun hcomplete => forall_of_forall₂ (fun _ _ h => h.2 hcomplete) hlabels⟩

theorem restores_entries {entries : List Entry} {labels : List (String × Datum)}
    (h : List.Forall₂ (Reads depth) entries labels) {head : List UInt8}
    (hhead : WideHead 5 entries.length head) :
    Restores (read (depth + 1)) (head ++ (entries.map Entry.bytes).flatten) (record labels) := by
  have hsteps : Steps (pushEntry depth) #[] (entries.map Entry.bytes) _ :=
    .of_forall₂ (fun acc e d he => restores_pushEntry he.key he.item acc) h #[]
  rw [List.foldl_push_eq_append, Array.empty_append] at hsteps
  intro hlength rest
  have htimes := hsteps.restores_times (length_lt_of_append hlength).2 rest
  rw [List.length_map] at htimes
  rw [List.append_assoc, read_eq, hhead.pull (by decide) rfl]
  exact congrArg (Option.map fun r => (map r.1.toList, r.2)) htimes

end Records

end Datum

end Terrarium.Cbor
