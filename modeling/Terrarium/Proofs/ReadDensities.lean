import Terrarium.Proofs.DelimitedPayloads
import Terrarium.Proofs.PieceTurns
import Terrarium.Proofs.ResponseSize

namespace Terrarium

namespace Cbor

variable {α β σ : Type}

theorem Delimited.length_le {least : Nat} {read : List UInt8 → Reading α} (h : Delimited least read)
    {s rest : List UInt8} {a : α} (hs : read s = some (a, rest)) : rest.length ≤ s.length := by
  obtain ⟨front, rfl, -, -⟩ := h hs
  rw [List.length_append]
  exact Nat.le_add_left _ _

section Elements

variable {step : σ → List UInt8 → Reading σ} {I : σ → List UInt8 → Prop}
  (hstep : ∀ {a s b rest}, I a s → step a s = some (b, rest) → I b rest)

include hstep

theorem times_keeps {n : Nat} {a b : σ} {s rest : List UInt8} (ha : I a s)
    (h : times step n a s = some (b, rest)) : I b rest := by
  induction n generalizing a s with
  | zero =>
      cases h
      exact ha
  | succ n ih =>
      rw [times] at h
      split at h
      · cases h
      · rename_i hs
        exact ih (hstep ha hs) h

theorem untilStop_keeps (hstop : ∀ {a b s}, I a (b :: s) → I a s) {bound : List UInt8} {a b : σ}
    {s rest : List UInt8} (ha : I a s) (h : untilStop step bound a s = some (b, rest)) :
    I b rest := by
  induction bound generalizing a s with
  | nil => cases h
  | cons _ bound ih =>
      unfold untilStop at h
      split at h
      · cases h
        exact hstop ha
      · split at h
        · cases h
        · rename_i hs
          exact ih (hstep ha hs) h

theorem elements_keeps (hstop : ∀ {a b s}, I a (b :: s) → I a s) {length : Option Nat} {a b : σ}
    {s rest : List UInt8} (ha : I a s) (h : elements step length a s = some (b, rest)) :
    I b rest := by
  cases length with
  | some n => exact times_keeps hstep ha h
  | none => exact untilStop_keeps hstep hstop ha h

end Elements

/-- Whatever comes of a reading that may fail has a property. -/
def Yields (P : α → Prop) (o : Option α) : Prop := ∀ a, o = some a → P a

theorem Yields.bind {P : β → Prop} {o : Option α} {f : α → Option β}
    (h : ∀ a, o = some a → Yields P (f a)) : Yields P (o >>= f) := by
  intro b hb
  obtain ⟨a, ha, hf⟩ := Option.bind_eq_some_iff.mp hb
  exact h a ha b hf

theorem yields_none {P : α → Prop} : Yields P none := fun _ h => by cases h

theorem yields_some {P : α → Prop} {a : α} (h : P a) : Yields P (some a) :=
  fun _ ha => by cases ha; exact h

theorem yields_mapM {P : β → Prop} {f : α → Option β} {l : List α}
    (h : ∀ a ∈ l, Yields P (f a)) :
    Yields (fun values => values.length = l.length ∧ ∀ b ∈ values, P b) (l.mapM f) := by
  induction l with
  | nil => exact yields_some ⟨rfl, List.forall_mem_nil P⟩
  | cons a l ih =>
      obtain ⟨ha, hl⟩ := List.forall_mem_cons.mp h
      rw [List.mapM_cons]
      refine .bind fun b hb => .bind fun values hvalues => yields_some ?_
      obtain ⟨hlength, hall⟩ := ih hl values hvalues
      exact ⟨congrArg (· + 1) hlength, List.forall_mem_cons.mpr ⟨ha b hb, hall⟩⟩

namespace Datum

/-- No array in an item has more than so many elements, and none in the values of a map. -/
inductive Narrow (n : Nat) : Datum → Prop where
  | array {items : List Datum} (hlength : items.length ≤ n) (hitems : ∀ d ∈ items, Narrow n d) :
      Narrow n (array items)
  | map {entries : List (Datum × Datum)} (hentries : ∀ e ∈ entries, Narrow n e.2) :
      Narrow n (map entries)
  | single {d : Datum} (harray : ∀ items, d ≠ array items) (hmap : ∀ entries, d ≠ map entries) :
      Narrow n d

variable {n : Nat} {d : Datum}

theorem mem_of_only? {p : Nat} {entries : List (Nat × Datum)} {v : Datum}
    (h : only? p entries = some v) : ∃ e ∈ entries, e.2 = v := by
  rw [only?] at h
  split at h
  · rename_i q d hfilter
    cases h
    have hmem : (q, v) ∈ entries.filter fun e => e.1 = p := by
      rw [hfilter]
      exact List.mem_singleton_self _
    exact ⟨_, List.mem_of_mem_filter hmem, rfl⟩
  · cases h

theorem Narrow.fields? (hd : d.Narrow n) (names : List String) :
    Yields (fun values => ∀ v ∈ values, v.Narrow n) (d.fields? names) := by
  intro values h
  cases hd with
  | array hlength hitems =>
      rw [Datum.fields?] at h
      split at h
      · cases h
        exact hitems
      · cases h
  | @map entries hentries =>
      rw [Datum.fields?] at h
      split at h
      · cases h
      · rename_i placed hplaced
        have hkept : ∀ e ∈ entries, Yields (fun e : Nat × Datum => e.2.Narrow n)
            ((place? names e.1).map fun p => (p, e.2)) := by
          intro e he e' he'
          obtain ⟨_, -, rfl⟩ := Option.map_eq_some_iff.mp he'
          exact hentries e he
        have hplaced := (yields_mapM hkept placed hplaced).2
        refine (yields_mapM (fun p _ v hv => ?_) values h).2
        obtain ⟨e, he, rfl⟩ := mem_of_only? hv
        exact hplaced e he
  | single harray hmap =>
      cases d with
      | array items => exact absurd rfl (harray items)
      | map entries => exact absurd rfl (hmap entries)
      | _ => cases h

theorem Narrow.items? (hd : d.Narrow n) : Yields (fun items => items.length ≤ n) d.items? := by
  cases d with
  | array items =>
      cases hd with
      | array hlength _ => exact yields_some hlength
      | single harray _ => exact absurd rfl (harray items)
  | _ => exact yields_none

section Loops

variable {read : List UInt8 → Reading Datum} (hread : Delimited 1 read)
  (hnarrow : ∀ {s d rest}, s.length ≤ n → read s = some (d, rest) → d.Narrow n)
  {length : Option Nat} {s rest : List UInt8} (hs : s.length ≤ n)

include hread hnarrow hs

theorem narrow_array {acc : Array Datum}
    (h : elements (fun (acc : Array Datum) s => (read s).map fun (item, rest) => (acc.push item, rest))
      length #[] s = some (acc, rest)) : (array acc.toList).Narrow n := by
  have hacc : acc.size + rest.length ≤ n ∧ ∀ d ∈ acc, d.Narrow n := by
    refine elements_keeps (I := fun (acc : Array Datum) s =>
      acc.size + s.length ≤ n ∧ ∀ d ∈ acc, d.Narrow n) ?_ ?_ ⟨by simpa using hs, by simp⟩ h
    · rintro acc s b rest ⟨hsize, hall⟩ hstep
      obtain ⟨⟨d, after⟩, hd, hpush⟩ := Option.map_eq_some_iff.mp hstep
      obtain ⟨rfl, rfl⟩ := Prod.mk.inj hpush
      have hlt := hread.length_lt hd
      refine ⟨by rw [Array.size_push]; omega, fun d' hd' => ?_⟩
      rcases Array.mem_push.mp hd' with hd' | rfl
      · exact hall d' hd'
      · exact hnarrow (by omega) hd
    · rintro acc b s ⟨hsize, hall⟩
      rw [List.length_cons] at hsize
      exact ⟨by omega, hall⟩
  exact .array (by rw [Array.length_toList]; omega) fun d hd => hacc.2 d (Array.mem_toList_iff.mp hd)

theorem narrow_map {acc : Array (Datum × Datum)}
    (h : elements (fun (acc : Array (Datum × Datum)) s =>
      match read s with
      | none => none
      | some (key, s) => (read s).map fun (value, rest) => (acc.push (key, value), rest))
      length #[] s = some (acc, rest)) : (map acc.toList).Narrow n := by
  have hacc : rest.length ≤ n ∧ ∀ e ∈ acc, e.2.Narrow n := by
    refine elements_keeps (I := fun (acc : Array (Datum × Datum)) s =>
      s.length ≤ n ∧ ∀ e ∈ acc, e.2.Narrow n) ?_ ?_ ⟨hs, by simp⟩ h
    · rintro acc s b rest ⟨hsize, hall⟩ hstep
      split at hstep
      · cases hstep
      · rename_i key middle hkey
        obtain ⟨⟨d, after⟩, hd, hpush⟩ := Option.map_eq_some_iff.mp hstep
        obtain ⟨rfl, rfl⟩ := Prod.mk.inj hpush
        have hlt := hread.length_lt hkey
        have hlt' := hread.length_lt hd
        refine ⟨by omega, fun e he => ?_⟩
        rcases Array.mem_push.mp he with he | rfl
        · exact hall e he
        · exact hnarrow (by omega) hd
    · rintro acc b s ⟨hsize, hall⟩
      rw [List.length_cons] at hsize
      exact ⟨by omega, hall⟩
  exact .map fun e he => hacc.2 e (Array.mem_toList_iff.mp he)

end Loops

theorem narrow_readWith {inner : Option (List UInt8 → Reading Datum)}
    (hinner : ∀ read ∈ inner, Delimited 1 read ∧
      ∀ {s d rest}, s.length ≤ n → read s = some (d, rest) → d.Narrow n)
    {s rest : List UInt8} (hs : s.length ≤ n) (h : readWith inner s = some (d, rest)) :
    d.Narrow n := by
  rw [readWith_eq] at h
  obtain ⟨⟨head, after⟩, hpull, h⟩ := Option.bind_eq_some_iff.mp h
  have hafter : after.length ≤ n := (delimited_pull.length_le hpull).trans hs
  cases head with
  | unsigned _ | float _ =>
      cases h
      exact .single nofun nofun
  | negative m =>
      dsimp only [readAfter] at h
      split at h
      · cases h
        exact .single nofun nofun
      · cases h
  | simple m =>
      obtain ⟨d, hd, heq⟩ := Option.map_eq_some_iff.mp h
      cases heq
      unfold simple? at hd
      split at hd <;> cases hd <;> exact .single nofun nofun
  | bytes length =>
      obtain ⟨_, -, heq⟩ := Option.map_eq_some_iff.mp h
      cases heq
      exact .single nofun nofun
  | text length =>
      obtain ⟨_, -, heq⟩ := Option.map_eq_some_iff.mp h
      cases heq
      exact .single nofun nofun
  | array length =>
      cases inner with
      | none => cases h
      | some read =>
          obtain ⟨hread, hnarrow⟩ := hinner read rfl
          obtain ⟨_, helements, heq⟩ := Option.map_eq_some_iff.mp h
          cases heq
          exact narrow_array hread hnarrow hafter helements
  | map length =>
      cases inner with
      | none => cases h
      | some read =>
          obtain ⟨hread, hnarrow⟩ := hinner read rfl
          obtain ⟨_, helements, heq⟩ := Option.map_eq_some_iff.mp h
          cases heq
          exact narrow_map hread hnarrow hafter helements
  | tag _ | stop => cases h

/-- An item has no array with more elements than the bytes that it is read from. -/
theorem narrow_read {depth : Nat} {s rest : List UInt8} (hs : s.length ≤ n)
    (h : read depth s = some (d, rest)) : d.Narrow n := by
  induction depth generalizing s d rest with
  | zero => exact narrow_readWith (fun _ hread => by cases hread) hs h
  | succ depth ih =>
      refine narrow_readWith (fun read hread => ?_) hs h
      cases hread
      exact ⟨delimited_read depth, ih⟩

end Datum

end Cbor

open Cbor

theorem Brush.density_le_of_narrow {d : Datum} {n : Nat} (hd : d.Narrow n) :
    Yields (fun b : Brush => b.density.size ≤ n) (ofDatum? d) := by
  unfold ofDatum?
  refine .bind fun values hvalues => ?_
  have hnarrow := hd.fields? _ values hvalues
  split
  · rename_i density _
    have hdensity : density.Narrow n := hnarrow _ (by simp)
    refine .bind fun _ _ => .bind fun _ _ => .bind fun _ _ => .bind fun items hitems =>
      .bind fun numbers hnumbers => .bind fun _ _ => yields_some ?_
    obtain ⟨hlength, -⟩ := yields_mapM (P := fun _ => True) (fun _ _ _ _ => trivial) _ hnumbers
    rw [List.size_toArray, hlength]
    exact hdensity.items? items hitems
  · exact yields_none

namespace Operation

theorem densities_le_of_narrow {d : Datum} {n : Nat} (hd : d.Narrow n) (k : String) :
    Yields (fun op => op.densities ≤ n) (ofDatum? k d) := by
  have hfields {names : List String} {f : List Datum → Option Operation}
      (hf : ∀ values, (∀ v ∈ values, v.Narrow n) → Yields (fun op => op.densities ≤ n) (f values)) :
      Yields (fun op => op.densities ≤ n) (d.fields? names >>= f) :=
    .bind fun values hvalues => hf values (hd.fields? names values hvalues)
  have hbrush {v : Datum} (hv : v.Narrow n) {f : Brush → Option Operation}
      (hf : ∀ b, b.density.size ≤ n → Yields (fun op => op.densities ≤ n) (f b)) :
      Yields (fun op => op.densities ≤ n) (Brush.ofDatum? v >>= f) :=
    .bind fun b hb => hf b (Brush.density_le_of_narrow hv b hb)
  have hother {op : Operation} (hop : op.densities = 0) :
      Yields (fun op => op.densities ≤ n) (pure op) :=
    yields_some (hop.trans_le (Nat.zero_le n))
  unfold ofDatum?
  split
  case h_12 =>
    split
    · exact hother rfl
    · exact hother rfl
    · exact yields_none
  case h_13 => exact yields_none
  all_goals
    refine hfields fun values hvalues => ?_
    split
    case h_2 => exact yields_none
  · exact hbrush (hvalues _ List.mem_cons_self) fun b hb => yields_some hb
  · exact hbrush (hvalues _ List.mem_cons_self) fun b hb => .bind fun _ _ => yields_some hb
  · exact hbrush (hvalues _ List.mem_cons_self) fun b hb => yields_some hb
  · exact hbrush (hvalues _ List.mem_cons_self) fun b hb =>
      .bind fun _ _ => .bind fun _ _ => .bind fun _ _ => .bind fun _ _ => yields_some hb
  · exact hbrush (hvalues _ List.mem_cons_self) fun b hb => yields_some hb
  · exact .bind fun _ _ => .bind fun _ _ => .bind fun _ _ => .bind fun _ _ => .bind fun _ _ =>
      hother rfl
  · exact .bind fun _ _ => .bind fun _ _ => hother rfl
  · exact .bind fun _ _ => .bind fun _ _ => hother rfl
  · exact .bind fun _ _ => .bind fun _ _ => hother rfl
  · exact .bind fun _ _ => hother rfl
  · exact .bind fun _ _ => hother rfl

theorem narrow_entries {depth n : Nat} {length : Option Nat} {s rest : List UInt8}
    {state : Option String × Array (Datum × Datum)} (hs : s.length ≤ n)
    (h : elements (entry depth) length (none, #[]) s = some (state, rest)) :
    (Datum.map state.2.toList).Narrow n := by
  have hheld : rest.length ≤ n ∧ ∀ e ∈ state.2, e.2.Narrow n := by
    refine elements_keeps (I := fun (state : Option String × Array (Datum × Datum)) s =>
      s.length ≤ n ∧ ∀ e ∈ state.2, e.2.Narrow n) ?_ ?_ ⟨hs, by simp⟩ h
    · rintro state s state' rest ⟨hsize, hall⟩ hstep
      have hrest := (delimited_entry depth state).length_le hstep
      refine ⟨by omega, ?_⟩
      rw [entry] at hstep
      split at hstep
      · cases hstep
      · rename_i key middle hkey
        split at hstep
        · obtain ⟨_, -, heq⟩ := Option.map_eq_some_iff.mp hstep
          cases heq
          exact hall
        · obtain ⟨⟨d, after⟩, hd, heq⟩ := Option.map_eq_some_iff.mp hstep
          cases heq
          have hmiddle := (Datum.delimited_read depth).length_lt hkey
          intro e he
          rcases Array.mem_push.mp he with he | rfl
          · exact hall e he
          · exact Datum.narrow_read (by omega) hd
    · rintro state b s ⟨hsize, hall⟩
      rw [List.length_cons] at hsize
      exact ⟨by omega, hall⟩
  exact .map fun e he => hheld.2 e (Array.mem_toList_iff.mp he)

theorem narrow_elements {depth n : Nat} {length : Option Nat} {s rest : List UInt8}
    {state : Option String × Array Datum} (hs : s.length ≤ n)
    (h : elements (element depth) length (none, #[]) s = some (state, rest)) :
    (Datum.array state.2.toList).Narrow n := by
  have hheld : state.2.size + rest.length ≤ n ∧ ∀ d ∈ state.2, d.Narrow n := by
    refine elements_keeps (I := fun (state : Option String × Array Datum) s =>
      state.2.size + s.length ≤ n ∧ ∀ d ∈ state.2, d.Narrow n) ?_ ?_ ⟨by simpa using hs, by simp⟩ h
    · rintro state s state' rest ⟨hsize, hall⟩ hstep
      have hrest := (delimited_element depth state).length_lt hstep
      rw [element] at hstep
      split at hstep
      · obtain ⟨_, -, heq⟩ := Option.map_eq_some_iff.mp hstep
        cases heq
        exact ⟨by dsimp only; omega, hall⟩
      · obtain ⟨⟨d, after⟩, hd, heq⟩ := Option.map_eq_some_iff.mp hstep
        cases heq
        refine ⟨by rw [Array.size_push]; omega, fun d' hd' => ?_⟩
        rcases Array.mem_push.mp hd' with hd' | rfl
        · exact hall d' hd'
        · exact Datum.narrow_read (by omega) hd
    · rintro state b s ⟨hsize, hall⟩
      rw [List.length_cons] at hsize
      exact ⟨by omega, hall⟩
  exact .array (by rw [Array.length_toList]; omega) fun d hd => hheld.2 d (Array.mem_toList_iff.mp hd)

theorem densities_le_of_read {depth n : Nat} {s rest : List UInt8} {op : Operation}
    (hs : s.length ≤ n) (h : read depth s = some (op, rest)) : op.densities ≤ n := by
  unfold read at h
  split at h
  · rename_i length body hpull
    have hbody : body.length ≤ n := (delimited_pull.length_le hpull).trans hs
    split at h
    · rename_i k held after helements
      obtain ⟨op, hop, heq⟩ := Option.map_eq_some_iff.mp h
      cases heq
      exact densities_le_of_narrow (narrow_entries hbody helements) k _ hop
    · cases h
  · rename_i length body hpull
    have hbody : body.length ≤ n := (delimited_pull.length_le hpull).trans hs
    split at h
    · rename_i k held after helements
      obtain ⟨op, hop, heq⟩ := Option.map_eq_some_iff.mp h
      cases heq
      exact densities_le_of_narrow (narrow_elements hbody helements) k _ hop
    · cases h
  · cases h

end Operation

theorem Command.densities_le_of_read {depth n : Nat} {s rest : List UInt8} {c : Command}
    (hs : s.length ≤ n) (h : read depth s = some (c, rest)) : c.op.densities ≤ n := by
  have hentry {depth : Nat} {name : Option String} {f f' : Option UInt64 × Option Operation}
      {s rest : List UInt8} (hsize : s.length ≤ n) (hf : Yields (fun op => op.densities ≤ n) f.2)
      (hstep : entry depth name f s = some (f', rest)) :
      Yields (fun op => op.densities ≤ n) f'.2 := by
    unfold entry at hstep
    split at hstep
    · obtain ⟨_, -, heq⟩ := Option.map_eq_some_iff.mp hstep
      cases heq
      exact hf
    · obtain ⟨⟨op?, after⟩, hfill, heq⟩ := Option.map_eq_some_iff.mp hstep
      cases heq
      unfold fill at hfill
      split at hfill
      · cases hfill
      · obtain ⟨⟨op, after⟩, hop, heq⟩ := Option.map_eq_some_iff.mp hfill
        cases heq
        exact yields_some (Operation.densities_le_of_read hsize hop)
    · rw [ignore_keeps hstep]
      exact hf
  rw [read] at h
  split at h
  · rename_i token op after hrecord
    cases h
    cases depth with
    | zero => cases hrecord
    | succ depth =>
        rw [record] at hrecord
        split at hrecord
        · cases hrecord
        · rename_i length body hhead
          have hbody : body.length ≤ n := (delimited_mapHead.length_le hhead).trans hs
          refine (elements_keeps (I := fun (f : Option UInt64 × Option Operation) s =>
            s.length ≤ n ∧ Yields (fun op => op.densities ≤ n) f.2)
            ?_ ?_ ⟨hbody, yields_none⟩ hrecord).2 op rfl
          · rintro f s f' rest ⟨hsize, hf⟩ hstep
            have hrest := (delimited_namedStep (delimited_entry depth) f).length_le hstep
            refine ⟨hrest.trans hsize, ?_⟩
            split at hstep
            · cases hstep
            · rename_i name middle hname
              have hmiddle := delimited_readName.length_le hname
              exact hentry (hmiddle.trans hsize) hf hstep
          · rintro f b s ⟨hsize, hf⟩
            exact ⟨(Nat.le_succ _).trans hsize, hf⟩
  · cases h

/-- Whether the densities of a message's operation can be counted in a word. -/
def Message.Countable : Message → Prop
  | .command c => c.op.densities < UInt64.size
  | _ => True

theorem Message.countable_of_readPayload {c : MessageClass} {s : List UInt8}
    (hs : s.length ≤ Frame.maxPayload) {m : Message} (h : Frame.readPayload c s = .ok m) :
    m.Countable := by
  rw [Frame.readPayload] at h
  split at h
  · cases h
  · rename_i hread
    cases h
    cases c with
    | link =>
        obtain ⟨l, -, rfl⟩ := Option.map_eq_some_iff.mp hread
        exact trivial
    | command =>
        obtain ⟨⟨command, rest⟩, hcommand, rfl⟩ := Option.map_eq_some_iff.mp hread
        exact Nat.lt_of_le_of_lt (command.densities_le_of_read hs hcommand) (by decide)
    | response =>
        obtain ⟨r, -, rfl⟩ := Option.map_eq_some_iff.mp hread
        exact trivial

namespace Assembler

theorem countable_of_complete {stage : Stage} {s : List UInt8} (hs : s.length ≤ Frame.maxPayload)
    {first : Option Message} {a : Assembler} (h : complete stage s = .ok (first, a)) :
    ∀ m ∈ first, m.Countable := by
  have hmap {c : MessageClass} {s : List UInt8} (hs : s.length ≤ Frame.maxPayload)
      (h : (Frame.readPayload c s).map (fun m => (some m, fresh)) = .ok (first, a)) :
      ∀ m ∈ first, m.Countable := by
    cases hread : Frame.readPayload c s with
    | error e =>
        rw [hread] at h
        cases h
    | ok m =>
        rw [hread] at h
        cases h
        intro m' hm'
        cases hm'
        exact Message.countable_of_readPayload hs hread
  unfold complete at h
  split at h
  · split at h
    · cases h
    · exact hmap (Nat.zero_le _) h
    · cases h
      exact fun m hm => by cases hm
  · exact hmap hs h

theorem Bounded.push {a a' : Assembler} (ha : a.Bounded) {b : UInt8} {first : Option Message}
    (h : a.push b = .ok (first, a')) : a'.Bounded ∧ ∀ m ∈ first, m.Countable := by
  constructor
  · have hfeed := ha.call (.feed [b])
    rw [Assembler.call, feed, feedAfter_cons, h] at hfeed
    exact hfeed
  · have hsize := ha.size_le
    have hheld := ha.held
    rw [Assembler.push] at h
    split at h
    · cases h
      exact fun m hm => by cases hm
    · refine countable_of_complete ?_ h
      rw [Array.length_toList, Array.size_push]
      omega

theorem Bounded.feed_countable {a a' : Assembler} (ha : a.Bounded) {piece : List UInt8}
    {messages : List Message} (h : a.feed piece = (.ok messages, a')) :
    ∀ m ∈ messages, m.Countable := by
  suffices hafter : ∀ found : Array Message, (∀ m ∈ found, m.Countable) →
      a.feedAfter found piece = (.ok messages, a') → ∀ m ∈ messages, m.Countable from
    hafter #[] (by simp) h
  clear h
  induction piece generalizing a with
  | nil =>
      intro found hfound h
      cases h
      exact fun m hm => hfound m (Array.mem_toList_iff.mp hm)
  | cons b piece ih =>
      intro found hfound h
      rw [feedAfter_cons] at h
      cases hpush : a.push b with
      | error e =>
          rw [hpush] at h
          cases h
      | ok step =>
          obtain ⟨first, next⟩ := step
          obtain ⟨hnext, hfirst⟩ := ha.push hpush
          rw [hpush] at h
          refine ih hnext _ ?_ h
          cases first with
          | none => exact hfound
          | some m =>
              intro m' hm'
              rcases Array.mem_push.mp hm' with hm' | rfl
              · exact hfound m' hm'
              · exact hfirst m' rfl

end Assembler

end Terrarium
