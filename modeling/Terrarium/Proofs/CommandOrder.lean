import Terrarium.Proofs.OperationOrder
import Terrarium.Proofs.ResponseSize

namespace Terrarium

open Cbor

namespace Command

/-- The fields of a command, with some bytes for its operation. -/
def fieldsWith (c : Command) (op : List UInt8) : List (String × List UInt8) :=
  [("token", writeUnsigned c.token.toNat), ("op", op)]

theorem nodup_names (c : Command) (op : List UInt8) : ((c.fieldsWith op).map Prod.fst).Nodup := by
  simp [fieldsWith]

/-- The name of an entry, and what may be read under it as a token and as an operation. -/
structure Part where
  name : String
  token : Option UInt64
  op : Option Operation

/-- What becomes of the fields of a command when one more entry is read. -/
def Part.put (f : Option UInt64 × Option Operation) (p : Part) :
    Option (Option UInt64 × Option Operation) :=
  if p.name.utf8ByteSize ≤ nameLimit then
    if p.name = "token" then (filled f.1 p.token).map fun v => (v, f.2)
    else if p.name = "op" then (filled f.2 p.op).map fun v => (f.1, v)
    else some f
  else none

/-- An entry is read as a part. -/
structure Part.Of (depth : Nat) (e : Entry) (p : Part) : Prop where
  name : p.name = e.name
  head : WideHead 3 e.name.utf8ByteSize e.head
  token : e.name = "token" → Decides readWord e.value p.token
  op : e.name = "op" → Decides (Operation.read depth) e.value p.op
  other : e.name ≠ "token" → e.name ≠ "op" → ∃ d, Datum.Exact depth d e.value

theorem Part.Of.decides {depth : Nat} {e : Entry} {p : Part} (h : p.Of depth e)
    (f : Option UInt64 × Option Operation) :
    Decides (namedStep (entry depth) f) e.bytes (p.put f) := by
  rw [Part.put, h.name]
  refine .named h.head ?_
  by_cases htoken : e.name = "token"
  · rw [if_pos htoken, htoken]
    exact ((h.token htoken).fill f.1).map fun v => (v, f.2)
  by_cases hop : e.name = "op"
  · rw [if_neg htoken, if_pos hop, hop]
    exact ((h.op hop).fill f.2).map fun v => (f.1, v)
  · obtain ⟨d, hd⟩ := h.other htoken hop
    have hentry (s : List UInt8) : entry depth (some e.name) f s = ignore depth f s := by
      unfold entry
      split <;> simp_all
    rw [if_neg htoken, if_neg hop]
    intro hlength rest
    rw [hentry, ignore, hd.skip_eq hlength]
    rfl

theorem foldlM_put {parts : List Part} {token : UInt64} {o : Option Operation}
    (hshort : ∀ p ∈ parts, p.name.utf8ByteSize ≤ nameLimit)
    (hparts : ∀ p ∈ parts, (p.name = "token" → p.token = some token) ∧ (p.name = "op" → p.op = o))
    {f : Option UInt64 × Option Operation}
    (htoken : (parts.map Part.name).count "token" + f.1.toList.length = 1)
    (hop : (parts.map Part.name).count "op" + f.2.toList.length = 1) :
    parts.foldlM Part.put f = (f.2.or o).map fun op => (some (f.1.getD token), some op) := by
  obtain ⟨slot, slot'⟩ := f
  induction parts generalizing slot slot' with
  | nil =>
      cases slot with
      | none => cases htoken
      | some t =>
          cases slot' with
          | none => cases hop
          | some op => rfl
  | cons p parts ih =>
      obtain ⟨hp, hshort⟩ := List.forall_mem_cons.mp hshort
      obtain ⟨⟨hptoken, hpop⟩, hparts⟩ := List.forall_mem_cons.mp hparts
      rw [List.map_cons] at htoken hop
      rw [List.foldlM_cons, Part.put, if_pos hp]
      by_cases hname : p.name = "token"
      · rw [hname, List.count_cons_self] at htoken
        rw [hname, List.count_cons_of_ne (by decide)] at hop
        cases slot with
        | some t => simp at htoken
        | none =>
            rw [if_pos hname, hptoken hname]
            exact ih hshort hparts _ _ htoken hop
      by_cases hname' : p.name = "op"
      · rw [hname', List.count_cons_of_ne (by decide)] at htoken
        rw [hname', List.count_cons_self] at hop
        cases slot' with
        | some op => simp at hop
        | none =>
            rw [if_neg hname, if_pos hname', hpop hname']
            cases o with
            | none => rfl
            | some op => exact ih hshort hparts _ _ htoken hop
      · rw [List.count_cons_of_ne hname] at htoken
        rw [List.count_cons_of_ne hname'] at hop
        rw [if_neg hname, if_neg hname']
        exact ih hshort hparts _ _ htoken hop

theorem length_of_filled {α : Type} {slot o v : Option α} (h : filled slot o = some v) :
    slot.toList.length + 1 = v.toList.length := by
  cases slot with
  | some a => cases h
  | none =>
      obtain ⟨a, -, rfl⟩ := Option.map_eq_some_iff.mp h
      rfl

theorem Part.length_of_put {p : Part} {f g : Option UInt64 × Option Operation}
    (h : p.put f = some g) :
    [p.name].count "token" + f.1.toList.length = g.1.toList.length ∧
      [p.name].count "op" + f.2.toList.length = g.2.toList.length := by
  rw [put, Option.ite_none_right_eq_some] at h
  obtain ⟨-, h⟩ := h
  by_cases hname : p.name = "token"
  · rw [if_pos hname, Option.map_eq_some_iff] at h
    obtain ⟨v, hv, rfl⟩ := h
    have hlength := length_of_filled hv
    rw [hname, List.count_singleton_self, Nat.add_comm]
    exact ⟨hlength, Nat.zero_add _⟩
  rw [if_neg hname] at h
  by_cases hname' : p.name = "op"
  · rw [if_pos hname', Option.map_eq_some_iff] at h
    obtain ⟨v, hv, rfl⟩ := h
    have hlength := length_of_filled hv
    rw [hname', List.count_singleton_self, Nat.add_comm 1]
    exact ⟨Nat.zero_add _, hlength⟩
  · rw [if_neg hname'] at h
    cases h
    rw [List.count_singleton, List.count_singleton, if_neg (by simpa using hname),
      if_neg (by simpa using hname')]
    exact ⟨Nat.zero_add _, Nat.zero_add _⟩

theorem count_of_foldlM_put {parts : List Part} {f g : Option UInt64 × Option Operation}
    (h : parts.foldlM Part.put f = some g) :
    (parts.map Part.name).count "token" + f.1.toList.length = g.1.toList.length ∧
      (parts.map Part.name).count "op" + f.2.toList.length = g.2.toList.length := by
  induction parts generalizing f with
  | nil =>
      cases h
      simp
  | cons p parts ih =>
      rw [List.foldlM_cons] at h
      obtain ⟨f', hfirst, hrest⟩ := Option.bind_eq_some_iff.mp h
      have hput := p.length_of_put hfirst
      have hall := ih hrest
      rw [List.map_cons, List.count_cons, List.count_cons]
      rw [List.count_singleton, List.count_singleton] at hput
      omega

/-- A command of a slot for each field. -/
def made? (f : Option UInt64 × Option Operation) : Option Command :=
  f.1.bind fun token => f.2.map (Command.mk token)

theorem made?_of_count {parts : List Part} {name : String} (hname : name = "token" ∨ name = "op")
    (hcount : (parts.map Part.name).count name ≠ 1) :
    (parts.foldlM Part.put (none, none)).bind made? = none := by
  cases hfold : parts.foldlM Part.put (none, none) with
  | none => rfl
  | some f =>
      obtain ⟨htoken, hop⟩ := count_of_foldlM_put hfold
      obtain ⟨- | token, - | op⟩ := f
      case some.some =>
        rcases hname with rfl | rfl
        · exact absurd htoken hcount
        · exact absurd hop hcount
      all_goals rfl

theorem decides_read {depth : Nat} {entries : List Entry} {parts : List Part}
    (h : List.Forall₂ (fun e p => p.Of depth e) entries parts) {head : List UInt8}
    (hhead : WideHead 5 entries.length head) :
    Decides (read (depth + 1)) (head ++ (entries.map Entry.bytes).flatten)
      ((parts.foldlM Part.put (none, none)).bind made?) := by
  intro hlength rest
  have hrecord := decides_record (fun f e p (hp : p.Of depth e) => hp.decides f) h hhead
    (none, none) hlength rest
  rw [read, hrecord]
  rcases parts.foldlM Part.put (none, none) with - | ⟨- | token, - | op⟩ <;> rfl

/-- An entry is read as a part; if it is a field, the part is what the field is read as. -/
theorem exists_part {c : Command} {depth : Nat} (hdepth : spareDepth ≤ depth + 1) {op : List UInt8}
    {o : Option Operation} (hop : Decides (Operation.read (depth + 1)) op o) {e : Entry}
    (h : e.Fits (c.fieldsWith op)) :
    ∃ p : Part, p.Of (depth + 1) e ∧ (e.field ∈ c.fieldsWith op →
      (p.name = "token" → p.token = some c.token) ∧ (p.name = "op" → p.op = o)) := by
  by_cases he : e.field ∈ c.fieldsWith op
  · have htoken : e.name = "token" → e.value = writeUnsigned c.token.toNat := fun hname =>
      Entry.value_eq (c.nodup_names op) he (hname ▸ List.mem_cons_self)
    have hvalue : e.name = "op" → e.value = op := fun hname =>
      Entry.value_eq (c.nodup_names op) he (hname ▸ .tail _ List.mem_cons_self)
    have hname : e.name = "token" ∨ e.name = "op" := by
      simpa [fieldsWith, Entry.field] using List.mem_map_of_mem (f := Prod.fst) he
    refine ⟨⟨e.name, some c.token, o⟩, ⟨rfl, h.head, fun hname => ?_, fun hname => ?_,
      fun hother hother' => absurd hname (not_or_intro hother hother')⟩,
      fun _ => ⟨fun _ => rfl, fun _ => rfl⟩⟩
    · rw [htoken hname]
      exact (restores_word c.token).decides
    · rw [hvalue hname]
      exact hop
  · obtain ⟨d, hd⟩ := h.value.resolve_left he
    obtain ⟨w, hw⟩ := hd.exists_decides_readWord
    obtain ⟨o', ho'⟩ := Operation.exists_decides_read hd hdepth
    have hskip := hd.exact hdepth
    exact ⟨⟨e.name, w, o'⟩, ⟨rfl, h.head, fun _ => hw, fun _ => ho', fun _ _ => ⟨d, hskip⟩⟩,
      fun h => absurd h he⟩

theorem foldlM_put_long {parts : List Part} {p : Part} (hp : p ∈ parts)
    (hlong : nameLimit < p.name.utf8ByteSize) (f : Option UInt64 × Option Operation) :
    parts.foldlM Part.put f = none := by
  induction parts generalizing f with
  | nil => cases hp
  | cons q parts ih =>
      rw [List.foldlM_cons]
      rcases List.mem_cons.mp hp with rfl | hp
      · rw [Part.put, if_neg hlong.not_ge]
        rfl
      · cases q.put f with
        | none => rfl
        | some g => exact ih hp g

/-- A command's map, its operation's and its brush's, with their entries in any order, some of which
may be none of the fields. All fields of the operation are there, each of them once. -/
structure Arrangement (c : Command) where
  brushEntries : List Entry
  brush : List UInt8
  opEntries : List Entry
  op : List UInt8
  entries : List Entry
  bytes : List UInt8
  lays_brush : ∀ b, c.op.brush? = some b → Lays b.writtenFields brushEntries brush
  lays_op : Lays (c.op.fieldsWith brush) opEntries op
  complete_op : Entry.Complete (c.op.fieldsWith brush) opEntries
  lays : Lays (c.fieldsWith op) entries bytes

namespace Arrangement

variable {c : Command}

/-- The fields of the command and of its brush are there, each of them once. -/
def Complete (a : c.Arrangement) : Prop :=
  Entry.Complete (c.fieldsWith a.op) a.entries ∧
    ∀ b, c.op.brush? = some b → Entry.Complete b.writtenFields a.brushEntries

/-- The name of a field of the command, or of the brush in it, is missing or given more than
once. -/
def Faulty (a : c.Arrangement) : Prop :=
  Entry.Faulty (c.fieldsWith a.op) a.entries ∨
    Entry.Complete (c.fieldsWith a.op) a.entries ∧
      ∃ b, c.op.brush? = some b ∧ Entry.Faulty b.writtenFields a.brushEntries

def ofRecords (c : Command) (brushFields opFields fields : List (String × List UInt8))
    (hbrush : ∀ b, c.op.brush? = some b →
      Lays b.writtenFields (brushFields.map .ofField) (writeRecord brushFields))
    (hop : Lays (c.op.fieldsWith (writeRecord brushFields)) (opFields.map .ofField)
      (writeRecord opFields))
    (hcomplete : Entry.Complete (c.op.fieldsWith (writeRecord brushFields))
      (opFields.map .ofField))
    (hfields : Lays (c.fieldsWith (writeRecord opFields)) (fields.map .ofField)
      (writeRecord fields)) : c.Arrangement where
  brushEntries := brushFields.map .ofField
  brush := writeRecord brushFields
  opEntries := opFields.map .ofField
  op := writeRecord opFields
  entries := fields.map .ofField
  bytes := writeRecord fields
  lays_brush := hbrush
  lays_op := hop
  complete_op := hcomplete
  lays := hfields

theorem exists_written (c : Command) :
    ∃ a : c.Arrangement, a.bytes = c.written ∧ a.Complete ∧
      ∀ e ∈ a.entries, e.name.utf8ByteSize ≤ nameLimit := by
  have hown {fields : List (String × List UInt8)} (hlength : fields.length < UInt64.size)
      (hnames : ∀ name ∈ fields.map Prod.fst, name.utf8ByteSize ≤ nameLimit) :
      Lays fields (fields.map .ofField) (writeRecord fields) :=
    lays_writeRecord hlength (fun name hname => Nat.lt_of_le_of_lt (hnames name hname) (by decide))
      fun f hf => .inl hf
  have hbrush (b : Brush) : Lays b.writtenFields (b.writtenFields.map .ofField) b.written := by
    refine hown (by decide : 5 < UInt64.size) ?_
    show ∀ name ∈ ["xc", "yc", "size", "density_map", "strength"], _
    decide
  have hop : c.op.fieldsWith (writeRecord ((c.op.brush?.map Brush.writtenFields).getD [])) =
      (Operation.kindKey, writeText c.op.name) :: c.op.writtenFields :=
    Operation.fieldsWith_written fun b hb => by rw [hb]; rfl
  have hopNames : ∀ name ∈ ((Operation.kindKey, writeText c.op.name) :: c.op.writtenFields).map
      Prod.fst, name.utf8ByteSize ≤ nameLimit := by
    cases c.op <;> simp +decide [Operation.writtenFields]
  have hopLength : c.op.writtenFields.length + 1 < UInt64.size := by
    cases c.op <;> simp +decide [Operation.writtenFields]
  have hnames : ∀ name ∈ ["token", "op"], name.utf8ByteSize ≤ nameLimit := by decide
  refine ⟨.ofRecords c ((c.op.brush?.map Brush.writtenFields).getD [])
    ((Operation.kindKey, writeText c.op.name) :: c.op.writtenFields) (c.fieldsWith c.op.written)
    (fun b hb => ?_) ?_ ?_ (hown (by decide : 2 < UInt64.size) hnames), rfl,
    ⟨Entry.complete_ofField _, fun b hb => ?_⟩, ?_⟩
  · rw [hb]
    exact hbrush b
  · rw [hop]
    exact hown hopLength hopNames
  · rw [hop]
    exact Entry.complete_ofField _
  · show Entry.Complete _ (List.map Entry.ofField _)
    rw [hb]
    exact Entry.complete_ofField _
  · refine List.forall_mem_map.mpr fun f hf => ?_
    exact hnames f.1 (List.mem_map_of_mem hf)

theorem exists_decides_op (a : c.Arrangement) (depth : Nat) (hdepth : spareDepth ≤ depth + 1) :
    ∃ o, Decides (Operation.read (depth + 3)) a.op o ∧
      ((∀ b, c.op.brush? = some b → Entry.Complete b.writtenFields a.brushEntries) →
        o = some c.op) ∧
      ((∃ b, c.op.brush? = some b ∧ Entry.Faulty b.writtenFields a.brushEntries) → o = none) := by
  have hdeeper : spareDepth ≤ depth + 2 := Nat.le_succ_of_le hdepth
  cases hop : c.op.brush? with
  | none =>
      have hnone : ¬ c.op.brush?.isSome := by simp [hop]
      obtain ⟨held, hfields, hread⟩ := c.op.exists_fields hdeeper (d := .null)
        (fun h => absurd h hnone) a.lays_op a.complete_op
      refine ⟨_, hread, fun _ => c.op.ofDatum?_of_fields hfields fun b hb => ?_, ?_⟩
      · rw [hop] at hb
        cases hb
      · rintro ⟨b, hb, -⟩
        cases hb
  | some b =>
      obtain ⟨d, hd, hcomplete, hfaulty⟩ := Brush.exists_datum (a.lays_brush b hop) hdepth
      obtain ⟨held, hfields, hread⟩ :=
        c.op.exists_fields hdeeper (fun _ => hd) a.lays_op a.complete_op
      refine ⟨_, hread, fun h => ?_, ?_⟩
      · refine c.op.ofDatum?_of_fields hfields fun b' hb' => ?_
        rw [hop] at hb'
        cases hb'
        exact hcomplete (h b rfl)
      · rintro ⟨b', hb', h⟩
        cases hb'
        exact Operation.ofDatum?_eq_none (by rw [hop]; rfl) hfields (hfaulty h)

theorem exists_parts (a : c.Arrangement) (depth : Nat) (hdepth : spareDepth ≤ depth + 1)
    {o : Option Operation} (hop : Decides (Operation.read (depth + 1)) a.op o) :
    ∃ parts : List Part, Decides (Command.read (depth + 2)) a.bytes
        ((parts.foldlM Part.put (none, none)).bind made?) ∧
      parts.map Part.name = a.entries.map Entry.name ∧
      (Entry.Complete (c.fieldsWith a.op) a.entries → ∀ p ∈ parts,
        (p.name = "token" → p.token = some c.token) ∧ (p.name = "op" → p.op = o)) := by
  obtain ⟨hfits, head, hhead, hbytes⟩ := a.lays
  obtain ⟨parts, hparts⟩ := exists_forall₂ (R := fun e (p : Part) => p.Of (depth + 1) e ∧
      (Entry.Complete (c.fieldsWith a.op) a.entries → (p.name = "token" → p.token = some c.token) ∧
        (p.name = "op" → p.op = o))) fun e he => by
    obtain ⟨p, hp, hfield⟩ := exists_part hdepth hop (hfits e he)
    refine ⟨p, hp, fun hcomplete => ?_⟩
    by_cases hname : e.name ∈ (c.fieldsWith a.op).map Prod.fst
    · exact hfield (hcomplete.mem he hname)
    · have hother : e.name ≠ "token" ∧ e.name ≠ "op" := by simpa [fieldsWith] using hname
      rw [hp.name]
      exact ⟨fun h => absurd h hother.1, fun h => absurd h hother.2⟩
  refine ⟨parts, ?_, ?_, ?_⟩
  · rw [hbytes]
    exact decides_read (hparts.imp fun _ _ h => h.1) hhead
  · exact map_eq_of_forall₂ (fun _ _ h => h.1.name) hparts
  · exact fun hcomplete => forall_of_forall₂ (fun _ _ h => h.2 hcomplete) hparts

theorem exists_payload (a : c.Arrangement) (hlength : a.bytes.length < UInt64.size) :
    ∃ (parts : List Part) (o : Option Operation),
      Message.ofPayload? .command a.bytes =
        ((parts.foldlM Part.put (none, none)).bind made?).map .command ∧
      parts.map Part.name = a.entries.map Entry.name ∧
      (Entry.Complete (c.fieldsWith a.op) a.entries → ∀ p ∈ parts,
        (p.name = "token" → p.token = some c.token) ∧ (p.name = "op" → p.op = o)) ∧
      ((∀ b, c.op.brush? = some b → Entry.Complete b.writtenFields a.brushEntries) →
        o = some c.op) ∧
      ((∃ b, c.op.brush? = some b ∧ Entry.Faulty b.writtenFields a.brushEntries) → o = none) := by
  obtain ⟨o, hop, hbrush⟩ := a.exists_decides_op 252 (by decide)
  obtain ⟨parts, hread, hparts⟩ := a.exists_parts 254 (by decide) hop
  have hwhole := hread hlength []
  rw [List.append_nil] at hwhole
  refine ⟨parts, o, ?_, hparts.1, hparts.2, hbrush⟩
  rw [Message.ofPayload?, nestingLimit, hwhole, Option.map_map]
  rfl

theorem ofPayload?_of_long (a : c.Arrangement) (hlength : a.bytes.length < UInt64.size) {e : Entry}
    (he : e ∈ a.entries) (hlong : nameLimit < e.name.utf8ByteSize) :
    Message.ofPayload? .command a.bytes = none := by
  obtain ⟨parts, o, hpayload, hnames, -⟩ := a.exists_payload hlength
  have hname := List.mem_map_of_mem (f := Entry.name) he
  rw [← hnames] at hname
  obtain ⟨p, hp, heq⟩ := List.mem_map.mp hname
  rw [hpayload, foldlM_put_long hp (heq ▸ hlong)]
  rfl

/-- A command is read if each field of it and of its brush stands once in its map and names in the
map are not too long, whatever else stands there; no order matters, in the map of the operation
neither. It is not read if a field of it or of its brush is missing or given more than once. The
bytes in which it is written are of the first kind. -/
theorem ofPayload?_arrangement (a : c.Arrangement) (hlength : a.bytes.length < UInt64.size) :
    (a.Complete → (∀ e ∈ a.entries, e.name.utf8ByteSize ≤ nameLimit) →
        Message.ofPayload? .command a.bytes = some (.command c)) ∧
      (a.Faulty → Message.ofPayload? .command a.bytes = none) ∧
      ∃ own : c.Arrangement, own.bytes = c.written ∧ own.Complete ∧
        ∀ e ∈ own.entries, e.name.utf8ByteSize ≤ nameLimit := by
  obtain ⟨parts, o, hpayload, hnames, hparts, hcomplete, hfaulty⟩ := a.exists_payload hlength
  have hput (h : Entry.Complete (c.fieldsWith a.op) a.entries)
      (hshort : ∀ e ∈ a.entries, e.name.utf8ByteSize ≤ nameLimit) :
      parts.foldlM Part.put (none, none) = o.map fun op => (some c.token, some op) := by
    have hcount (name : String) (hname : name ∈ (c.fieldsWith a.op).map Prod.fst) :
        (parts.map Part.name).count name = 1 := hnames ▸ h.count (c.nodup_names a.op) hname
    have hsizes : ∀ name ∈ parts.map Part.name, name.utf8ByteSize ≤ nameLimit := by
      rw [hnames]
      exact List.forall_mem_map.mpr hshort
    exact foldlM_put (List.forall_mem_map.mp hsizes) (hparts h)
      (hcount "token" (by simp [fieldsWith])) (hcount "op" (by simp [fieldsWith]))
  refine ⟨?_, ?_, exists_written c⟩
  · rintro ⟨hall, hbrush⟩ hshort
    rw [hpayload, hput hall hshort, hcomplete hbrush]
    rfl
  · rintro (⟨name, hname, hcount⟩ | ⟨hall, hbrush⟩)
    · rw [hpayload, made?_of_count (by simpa [fieldsWith] using hname) (hnames ▸ hcount)]
      rfl
    · by_cases hshort : ∀ e ∈ a.entries, e.name.utf8ByteSize ≤ nameLimit
      · rw [hpayload, hput hall hshort, hfaulty hbrush]
        rfl
      · push Not at hshort
        obtain ⟨e, he, hlong⟩ := hshort
        exact a.ofPayload?_of_long hlength he hlong

theorem ofPayload?_arrangement_shuffled :
    let raise : Command := ⟨7, .terraformRaise ⟨1, 2, 1, #[0.5], 0.25⟩⟩
    let brush : List (String × List UInt8) :=
      [("strength", writeFloat 0.25), ("note", [0xf6]), ("size", [1]), ("xc", writeFloat 1),
        ("density_map", writeArray [writeFloat 0.5]), ("yc", writeFloat 2)]
    let operation (brush : List (String × List UInt8)) : List (String × List UInt8) :=
      [("brush", writeRecord brush), ("object_id", [0x82, 0xf6, 0x20]),
        ("kind", writeText "terraform_raise")]
    let command (brush : List (String × List UInt8)) : List (String × List UInt8) :=
      [("op", writeRecord (operation brush)), ("until", writeFloat 0.5), ("token", [7])]
    Message.ofPayload? .command (writeRecord (command brush)) = some (.command raise) ∧
      Message.ofPayload? .command (writeRecord (("token", [8]) :: command brush)) = none ∧
      Message.ofPayload? .command (writeRecord (command (brush.eraseIdx 3))) = none := by
  intro raise brush operation command
  let b : Brush := ⟨1, 2, 1, #[0.5], 0.25⟩
  let spare : List (String × List UInt8) :=
    [("note", [0xf6]), ("object_id", [0x82, 0xf6, 0x20]), ("until", writeFloat 0.5), ("token", [8])]
  have hitems : ∀ i ∈ [(.null, [0xf6]), (.negative 0, [0x20])], Datum.Spelling 99 i.1 i.2 := by
    simp only [List.forall_mem_cons]
    exact ⟨.null, .negative (by decide) (.short (by decide)), List.forall_mem_nil _⟩
  have harray : Datum.Spelling spareDepth (.array [.null, .negative 0]) [0x82, 0xf6, 0x20] :=
    .array (.short (by decide)) hitems
  have hspare : ∀ f ∈ spare, ∃ d, Datum.Spelling spareDepth d f.2 := by
    simp only [spare, List.forall_mem_cons]
    exact ⟨⟨_, .null⟩, ⟨_, harray⟩, ⟨_, @Datum.Spelling.half _ 0x3800 (by decide)⟩,
      ⟨_, .unsigned (n := 8) (.short (by decide))⟩, List.forall_mem_nil _⟩
  have hlays {fields own : List (String × List UInt8)} (hlength : own.length < UInt64.size)
      (hnames : ∀ name ∈ own.map Prod.fst, name.utf8ByteSize < UInt64.size)
      (hown : ∀ f ∈ own, f ∈ fields ∨ f ∈ spare) :
      Lays fields (own.map .ofField) (writeRecord own) :=
    lays_writeRecord hlength hnames fun f hf => (hown f hf).imp_right (hspare f)
  let short := brush.eraseIdx 3
  have hbrush : Lays b.writtenFields (brush.map .ofField) (writeRecord brush) :=
    hlays (by decide) (by decide) (by decide +kernel)
  have hshort : Lays b.writtenFields (short.map .ofField) (writeRecord short) :=
    hlays (by decide) (by decide) (by decide +kernel)
  let whole : raise.Arrangement := .ofRecords raise brush (operation brush) (command brush)
    (fun _ h => by cases h; exact hbrush) (hlays (by decide) (by decide) (by decide +kernel))
    (by decide +kernel) (hlays (by decide) (by decide) (by decide +kernel))
  let twice : raise.Arrangement := .ofRecords raise brush (operation brush)
    (("token", [8]) :: command brush)
    (fun _ h => by cases h; exact hbrush) (hlays (by decide) (by decide) (by decide +kernel))
    (by decide +kernel) (hlays (by decide) (by decide) (by decide +kernel))
  let lacking : raise.Arrangement := .ofRecords raise short (operation short) (command short)
    (fun _ h => by cases h; exact hshort) (hlays (by decide) (by decide) (by decide +kernel))
    (by decide +kernel) (hlays (by decide) (by decide) (by decide +kernel))
  have hcommand (l : List (String × List UInt8)) (hl : l = brush ∨ l = short) :
      Entry.Complete (raise.fieldsWith (writeRecord (operation l))) ((command l).map .ofField) := by
    rcases hl with rfl | rfl <;> decide +kernel
  have hfields : Entry.Complete b.writtenFields (brush.map .ofField) := by decide +kernel
  have hmissing : Entry.Faulty b.writtenFields (short.map .ofField) := by decide +kernel
  have hrepeated : Entry.Faulty (raise.fieldsWith (writeRecord (operation brush)))
      ((("token", [8]) :: command brush).map .ofField) := by decide +kernel
  have hnames : ∀ e ∈ (command brush).map Entry.ofField, e.name.utf8ByteSize ≤ nameLimit := by
    decide +kernel
  have hwhole : whole.Complete := ⟨hcommand brush (.inl rfl), fun _ h => by cases h; exact hfields⟩
  have hlacking : lacking.Faulty := .inr ⟨hcommand short (.inr rfl), b, rfl, hmissing⟩
  have hlength : (writeRecord (command brush)).length < UInt64.size := by decide +kernel
  have hlength' : (writeRecord (("token", [8]) :: command brush)).length < UInt64.size := by
    decide +kernel
  have hlength'' : (writeRecord (command short)).length < UInt64.size := by decide +kernel
  exact ⟨(ofPayload?_arrangement whole hlength).1 hwhole hnames,
    (ofPayload?_arrangement twice hlength').2.1 (.inl hrepeated),
    (ofPayload?_arrangement lacking hlength'').2.1 hlacking⟩

theorem utf8ByteSize_replicate (n : Nat) :
    (String.ofList (List.replicate n 'a')).utf8ByteSize = n := by
  induction n with
  | zero => rfl
  | succ n ih =>
      rw [List.replicate_succ, String.ofList_cons, String.utf8ByteSize_append, ih]
      exact Nat.add_comm 1 n

/-- Each field stands once, and the only other name is one of 4097 letters with nothing under it. -/
theorem ofPayload?_arrangement_longName :
    let reset : Command := ⟨1, .fluidReset⟩
    let fields : List (String × List UInt8) :=
      [(String.ofList (List.replicate 4097 'a'), [0xf6]), ("token", [1]), ("op", reset.op.written)]
    (∃ a : reset.Arrangement, a.bytes = writeRecord fields ∧
        a.bytes.length < UInt64.size ∧ a.Complete ∧ (a.entries.map Entry.name).Nodup) ∧
      Message.ofPayload? .command (writeRecord fields) = none := by
  intro reset fields
  have hsize := utf8ByteSize_replicate 4097
  have hother (s : String) (hs : s.utf8ByteSize < 4097) :
      String.ofList (List.replicate 4097 'a') ≠ s := by
    rintro rfl
    exact absurd hsize hs.ne
  have hspare : String.ofList (List.replicate 4097 'a') ∉ ["token", "op"] := by
    simp only [List.mem_cons, List.not_mem_nil, or_false, not_or]
    exact ⟨hother _ (by decide), hother _ (by decide)⟩
  have hop : Lays (reset.op.fieldsWith (writeRecord []))
      ([("kind", writeText "fluid_reset")].map .ofField) reset.op.written :=
    lays_writeRecord (by decide) (by decide) fun f hf => .inl hf
  have hfields : Lays (reset.fieldsWith reset.op.written) (fields.map .ofField)
      (writeRecord fields) := by
    refine lays_writeRecord (by decide : 3 < UInt64.size) ?_ ?_
    · simp only [fields, List.map_cons, List.forall_mem_cons, hsize]
      exact ⟨by decide, by decide, by decide, List.forall_mem_nil _⟩
    · exact List.forall_mem_cons.mpr ⟨.inr ⟨_, .null⟩, fun f hf => .inl hf⟩
  let a : reset.Arrangement := .ofRecords reset [] [("kind", writeText "fluid_reset")] fields
    (fun _ h => by cases h) hop (by decide) hfields
  have hlength : a.bytes.length < UInt64.size := by
    have hsizes : ∀ f ∈ fields, f.1.length ≤ 4097 ∧ f.2.length ≤ 18 := by
      refine List.forall_mem_cons.mpr ⟨⟨?_, by decide⟩, by decide⟩
      rw [String.length_ofList, List.length_replicate]
    refine Nat.lt_of_le_of_lt (length_writeRecord_le hsizes) ?_
    show 9 + 3 * (9 + 4 * 4097 + 18) < UInt64.size
    decide
  have hcomplete : Entry.Complete (reset.fieldsWith reset.op.written) (fields.map .ofField) :=
    (Entry.complete_ofField _).cons hspare
  refine ⟨⟨a, rfl, hlength, ⟨hcomplete, fun _ h => by cases h⟩, ?_⟩,
    a.ofPayload?_of_long hlength (e := .ofField (_, [0xf6])) List.mem_cons_self ?_⟩
  · exact List.nodup_cons.mpr ⟨hspare, by decide⟩
  · show 4096 < (String.ofList (List.replicate 4097 'a')).utf8ByteSize
    rw [hsize]
    decide

end Arrangement

end Command

end Terrarium
