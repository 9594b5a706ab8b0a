import Terrarium.Proofs.BrushStrokes
import Terrarium.Proofs.DelimitedPayloads
import Terrarium.Proofs.EntryOrder

namespace Terrarium

open Cbor

namespace Brush

variable {b : Brush} {entries : List Entry} {depth : Nat}

theorem nodup_names (b : Brush) : (b.writtenFields.map Prod.fst).Nodup := by
  simp [writtenFields]

/-- The tree of a map in which each field of a brush stands once is a tree of the brush; if a field is
missing or repeated, it is none of a brush. -/
theorem exists_datum {s : List UInt8} (h : Lays b.writtenFields entries s)
    (hdepth : spareDepth ≤ depth + 1) :
    ∃ d, Restores (Datum.read (depth + 2)) s d ∧
      (Entry.Complete b.writtenFields entries → ofDatum? d = some b) ∧
      (Entry.Faulty b.writtenFields entries → ofDatum? d = none) := by
  obtain ⟨hfits, head, hhead, rfl⟩ := h
  obtain ⟨labels, hlabels, hnames, hmem⟩ := Datum.exists_labels hfits hdepth (b.holds depth)
  refine ⟨_, Datum.restores_entries hlabels hhead, fun hcomplete => ?_, ?_⟩
  · have hcount (name : String) (hname : name ∈ b.data.map Prod.fst) :
        (labels.map Prod.fst).count name = 1 := by
      rw [hnames]
      exact hcomplete.count b.nodup_names hname
    have hnodup : (b.data.map Prod.fst).Nodup := b.nodup_names
    have hfields := Datum.fields?_eq_some hnodup hcount (hmem hcomplete)
    rw [← Datum.fields?_record hnodup] at hfields
    rw [← b.ofDatum?_datum]
    exact congrArg (· >>= _) hfields
  · rintro ⟨name, hname, hcount⟩
    rw [← hnames] at hcount
    have hfields := Datum.fields?_eq_none b.nodup_names hname hcount
    exact congrArg (· >>= _) hfields

end Brush

namespace Operation

/-- The fields of an operation, its kind first, with some bytes for the brush. -/
def fieldsWith (op : Operation) (brush : List UInt8) : List (String × List UInt8) :=
  (kindKey, writeText op.name) ::
    op.writtenFields.map fun f => (f.1, if f.1 = "brush" then brush else f.2)

/-- The trees of an operation's fields, its kind apart, with some tree for the brush. -/
def dataWith (op : Operation) (brush : Datum) : List (String × Datum) :=
  op.data.map fun d => (d.1, if d.1 = "brush" then brush else d.2)

theorem names_fieldsWith (op : Operation) (brush : List UInt8) :
    (op.fieldsWith brush).map Prod.fst = kindKey :: op.data.map Prod.fst := by
  cases op <;> rfl

theorem fieldsWith_written {op : Operation} {brush : List UInt8}
    (hbrush : ∀ b, op.brush? = some b → brush = b.written) :
    op.fieldsWith brush = (kindKey, writeText op.name) :: op.writtenFields := by
  cases op
  case terraformRaise b | terraformLevel b _ | terraformSmooth b | terraformRamp b _ _ _ _ |
      fluidRaise b =>
    rw [hbrush b rfl]
    rfl
  all_goals rfl

theorem names_dataWith (op : Operation) (brush : Datum) :
    (op.dataWith brush).map Prod.fst = op.data.map Prod.fst := by
  rw [dataWith, List.map_map]
  rfl

theorem nodup_names (op : Operation) : (kindKey :: op.data.map Prod.fst).Nodup := by
  cases op <;> simp [data, kindKey]

theorem holds_with {depth : Nat} (op : Operation) {brush : List UInt8} {d : Datum}
    (hbrush : op.brush?.isSome → Restores (Datum.read (depth + 2)) brush d) :
    List.Forall₂ (Datum.Holds (depth + 2)) (op.fieldsWith brush)
      ((kindKey, .text op.name) :: op.dataWith d) := by
  refine .cons ⟨rfl, Datum.restores_text _ op.name⟩ ?_
  have hfields := op.holds depth
  have hsome : ∀ f ∈ op.writtenFields, f.1 = "brush" → op.brush?.isSome := by
    cases op <;> simp [writtenFields, brush?]
  refine List.forall₂_map_left_iff.mpr (List.forall₂_map_right_iff.mpr ?_)
  refine ((List.forall₂_and_left _ _).mpr ⟨hsome, hfields⟩).imp fun f e hboth => ?_
  obtain ⟨hname, hf⟩ := hboth
  refine ⟨hf.name, ?_⟩
  by_cases heq : f.1 = "brush"
  · rw [if_pos heq, if_pos (hf.name.trans heq)]
    exact hbrush (hname heq)
  · rw [if_neg heq, if_neg fun h => heq (hf.name.symm.trans h)]
    exact hf.item

theorem ofDatum?_of_fields (op : Operation) {held : List (String × Datum)} {d : Datum}
    (h : Datum.fields? (op.data.map Prod.fst) (.record held) =
      some ((op.dataWith d).map Prod.snd))
    (hd : ∀ b, op.brush? = some b → Brush.ofDatum? d = some b) :
    ofDatum? op.name (.record held) = some op := by
  cases op
  case fluidReset => rfl
  all_goals
    simp [data, dataWith] at h
    simp [brush?] at hd
    simp [ofDatum?, name, h, hd, Point.ofDatum?_datum, ObjectId.ofDatum?_datum, Datum.float?]

theorem ofDatum?_eq_none {op : Operation} (hop : op.brush?.isSome) {held : List (String × Datum)}
    {d : Datum} (h : Datum.fields? (op.data.map Prod.fst) (.record held) =
      some ((op.dataWith d).map Prod.snd))
    (hd : Brush.ofDatum? d = none) : ofDatum? op.name (.record held) = none := by
  cases op
  case terraformRaise | terraformLevel | terraformSmooth | terraformRamp | fluidRaise =>
    simp [data, dataWith] at h
    simp [ofDatum?, name, h, hd]
  all_goals cases hop

/-- What becomes of the kind and of the other entries when one more is read. -/
def hold (op : Operation) (state : Option String × Array (Datum × Datum)) (d : String × Datum) :
    Option (Option String × Array (Datum × Datum)) :=
  if d.1 = kindKey then (filled state.1 (some op.name)).map fun k => (k, state.2)
  else some (state.1, state.2.push (.text d.1, d.2))

theorem decides_entry_of {depth : Nat} {key value : List UInt8} {d : Datum}
    {state : Option String × Array (Datum × Datum)}
    {o : Option (Option String × Array (Datum × Datum))}
    (hkey : Restores (Datum.read depth) key d)
    (hkind : d.isName kindKey →
      Decides (fun s => (fill state.1 kind s).map fun (k, rest) => ((k, state.2), rest)) value o)
    (hother : ¬ d.isName kindKey → Decides (fun s => (Datum.read depth s).map fun (d', rest) =>
      ((state.1, state.2.push (d, d')), rest)) value o) :
    Decides (entry depth state) (key ++ value) o := by
  intro hlength rest
  obtain ⟨hkeys, hvalues⟩ := length_lt_of_append hlength
  rw [List.append_assoc, entry, hkey hkeys]
  by_cases hname : d.isName kindKey
  · simp only [hname, if_true]
    exact hkind hname hvalues rest
  · simp only [hname]
    exact hother hname hvalues rest

theorem decides_entry {op : Operation} {depth : Nat} {e : Entry} {d : String × Datum}
    (h : Datum.Reads depth e d) (hkind : e.name = kindKey → e.value = writeText op.name)
    (state : Option String × Array (Datum × Datum)) :
    Decides (entry depth state) e.bytes (hold op state d) := by
  refine decides_entry_of h.key (fun hname => ?_) fun hname => ?_
  · have hd : d.1 = kindKey := of_decide_eq_true hname
    have hfill := (Restores.decides op.restores_kind).fill state.1
    rw [hold, if_pos hd, hkind (h.name ▸ hd)]
    exact hfill.map fun k => (k, state.2)
  · have hd : d.1 ≠ kindKey := of_decide_eq_false (Bool.eq_false_of_not_eq_true hname)
    rw [hold, if_neg hd]
    exact (Restores.decides h.item).map fun d' => (state.1, state.2.push (.text d.1, d'))

theorem foldlM_hold_others (op : Operation) {labels : List (String × Datum)}
    (h : kindKey ∉ labels.map Prod.fst) (k : Option String) (acc : Array (Datum × Datum)) :
    labels.foldlM (hold op) (k, acc) =
      some (k, acc ++ (labels.map fun d => (Datum.text d.1, d.2)).toArray) := by
  induction labels generalizing acc with
  | nil => simp
  | cons d labels ih =>
      rw [List.map_cons, List.mem_cons, not_or] at h
      rw [List.foldlM_cons, hold, if_neg (Ne.symm h.1)]
      refine (ih h.2 _).trans ?_
      simp

theorem foldlM_hold (op : Operation) {labels : List (String × Datum)}
    (h : (labels.map Prod.fst).count kindKey = 1) (acc : Array (Datum × Datum)) :
    labels.foldlM (hold op) (none, acc) = some (some op.name,
      acc ++ ((labels.filter fun d => d.1 ≠ kindKey).map fun d =>
        (Datum.text d.1, d.2)).toArray) := by
  induction labels generalizing acc with
  | nil => cases h
  | cons d labels ih =>
      rw [List.map_cons] at h
      by_cases hd : d.1 = kindKey
      · rw [hd, List.count_cons_self, Nat.add_eq_right, List.count_eq_zero] at h
        have hothers : labels.filter (fun d => d.1 ≠ kindKey) = labels :=
          List.filter_eq_self.mpr fun d hd => decide_eq_true fun heq =>
            h (heq ▸ List.mem_map_of_mem hd)
        rw [List.foldlM_cons, hold, if_pos hd, List.filter_cons_of_neg (by simpa using hd), hothers]
        exact foldlM_hold_others op h _ acc
      · rw [List.count_cons_of_ne hd] at h
        rw [List.foldlM_cons, hold, if_neg hd, List.filter_cons_of_pos (by simpa using hd)]
        refine (ih h _).trans ?_
        simp

/-- A map whose entries are read as names and trees, the kind among them once, is made into what the
others give. -/
theorem decides_read (op : Operation) {depth : Nat} {entries : List Entry}
    {labels : List (String × Datum)} (h : List.Forall₂ (Datum.Reads depth) entries labels)
    (hkind : ∀ e ∈ entries, e.name = kindKey → e.value = writeText op.name)
    (hcount : (labels.map Prod.fst).count kindKey = 1) {head : List UInt8}
    (hhead : WideHead 5 entries.length head) :
    Decides (read (depth + 1)) (head ++ (entries.map Entry.bytes).flatten)
      (ofDatum? op.name (.record (labels.filter fun d => d.1 ≠ kindKey))) := by
  intro hlength rest
  have hsteps := (List.forall₂_and_left _ _).mpr ⟨hkind, h⟩
  have htimes := decides_times (fun state e d he => decides_entry he.2 he.1 state) hsteps
    (none, #[]) (length_lt_of_append hlength).2 rest
  rw [foldlM_hold op hcount, Array.empty_append] at htimes
  have hpull : pull (head ++ ((entries.map Entry.bytes).flatten ++ rest)) =
      some (.map (some entries.length), (entries.map Entry.bytes).flatten ++ rest) :=
    hhead.pull (by decide) rfl _
  rw [List.append_assoc]
  simp only [read, hpull, elements, htimes, Option.map_some]
  rfl

/-- An operation's map in which each field stands once, with some bytes in the brush's place, is made
into what the fields give. -/
theorem exists_fields (op : Operation) {depth : Nat} (hdepth : spareDepth ≤ depth + 2)
    {brush : List UInt8} {d : Datum}
    (hbrush : op.brush?.isSome → Restores (Datum.read (depth + 2)) brush d)
    {entries : List Entry} {s : List UInt8} (h : Lays (op.fieldsWith brush) entries s)
    (hcomplete : Entry.Complete (op.fieldsWith brush) entries) :
    ∃ held, Datum.fields? (op.data.map Prod.fst) (.record held) =
        some ((op.dataWith d).map Prod.snd) ∧
      Decides (read (depth + 3)) s (ofDatum? op.name (.record held)) := by
  obtain ⟨hfits, head, hhead, rfl⟩ := h
  obtain ⟨labels, hlabels, hnames, hmem⟩ :=
    Datum.exists_labels hfits hdepth (op.holds_with hbrush)
  have hnodup := op.nodup_names
  obtain ⟨hkey, hfields⟩ := List.nodup_cons.mp hnodup
  have hcount (name : String) (hname : name ∈ kindKey :: op.data.map Prod.fst) :
      (labels.map Prod.fst).count name = 1 := by
    rw [← op.names_fieldsWith brush] at hname hnodup
    rw [hnames]
    exact hcomplete.count hnodup hname
  have hkind : ∀ e ∈ entries, e.name = kindKey → e.value = writeText op.name := fun e he hname =>
    have hmem : (e.name, writeText op.name) ∈ op.fieldsWith brush := hname ▸ List.mem_cons_self
    Entry.value_eq (op.names_fieldsWith brush ▸ hnodup)
      (hcomplete.mem he (List.mem_map_of_mem hmem)) hmem
  refine ⟨labels.filter fun d => d.1 ≠ kindKey, ?_,
    op.decides_read hlabels hkind (hcount kindKey List.mem_cons_self) hhead⟩
  rw [Datum.fields?_filter hfields hkey]
  rw [← op.names_dataWith d] at hfields hkey hcount ⊢
  refine Datum.fields?_eq_some hfields (fun name hname => hcount name (.tail _ hname))
    fun e he hname => ?_
  have hother : e ≠ (kindKey, .text op.name) := by
    rintro rfl
    exact hkey hname
  refine (List.mem_cons.mp (hmem hcomplete e he ?_)).resolve_left hother
  rw [names_dataWith] at hname
  rw [names_fieldsWith]
  exact List.mem_cons_of_mem _ hname

section Spelled

variable {k depth : Nat} {d : Datum} {s : List UInt8}

theorem exists_decides_kind (h : d.Spelling k s) : ∃ o, Decides kind s o := by
  obtain ⟨o, ho⟩ := h.exists_decides_readName
  refine ⟨o.bind (Option.filter (· ∈ kinds)), fun hlength rest => ?_⟩
  rw [kind_eq, ho hlength]
  cases o <;> rfl

theorem exists_decides_entry {key value : List UInt8} {d' : Datum} (hkey : d.Spelling k key)
    (hvalue : d'.Spelling k value) (hk : k ≤ depth)
    (state : Option String × Array (Datum × Datum)) :
    ∃ o, Decides (entry depth state) (key ++ value) o := by
  by_cases hname : d.isName kindKey
  · obtain ⟨o, ho⟩ := exists_decides_kind hvalue
    exact ⟨_, decides_entry_of (hkey.exact hk).read
      (fun _ => (ho.fill state.1).map fun k => (k, state.2)) (absurd hname)⟩
  · have hread := Restores.decides (hvalue.exact hk).read
    exact ⟨_, decides_entry_of (hkey.exact hk).read (fun h => absurd h hname)
      fun _ => hread.map fun d' => (state.1, state.2.push (d, d'))⟩

theorem exists_decides_element (h : d.Spelling k s) (hk : k ≤ depth)
    (state : Option String × Array Datum) : ∃ o, Decides (element depth state) s o := by
  obtain ⟨- | name, held⟩ := state
  · obtain ⟨o, ho⟩ := exists_decides_kind h
    exact ⟨_, ho.map fun k => (some k, held)⟩
  · exact ⟨_, (Restores.decides (h.exact hk).read).map fun d => (some name, held.push d)⟩

/-- What is no operation's map may still be read as an operation; no more and no less than the item is
taken. -/
theorem exists_decides_read (h : d.Spelling k s) (hk : k ≤ depth + 1) :
    ∃ o, Decides (read (depth + 1)) s o := by
  refine h.exists_decides (g := readAfter depth) (fun hpull _ => ?_) fun head back hparts => ?_
  · rw [read_eq, hpull]
    rfl
  have hmade {α : Type} (datum : List α → Datum) {s : List UInt8}
      {loop : List UInt8 → Reading (Option String × Array α)}
      (hloop : ∃ o, Decides loop s o) :
      ∃ o, Decides (fun s => (loop s).bind fun r => (made? datum r.1).map fun op => (op, r.2)) s
        o := by
    obtain ⟨o, ho⟩ := hloop
    refine ⟨o.bind (made? datum), fun hlength rest => ?_⟩
    dsimp only
    rw [ho hlength]
    cases o <;> rfl
  cases hparts with
  | array hinner hitems =>
      refine hmade Datum.array (exists_decides_times (fun s hs state => ?_) _)
      obtain ⟨d, hd⟩ := hitems s hs
      exact exists_decides_element hd (by omega) state
  | map hinner hentries =>
      refine hmade Datum.map (exists_decides_times (fun e he state => ?_) _)
      obtain ⟨key, value, d, d', rfl, hkey, hvalue⟩ := hentries e he
      exact exists_decides_entry hkey hvalue (by omega) state
  | _ => exact ⟨none, fun _ _ => rfl⟩

end Spelled
end Operation

end Terrarium
