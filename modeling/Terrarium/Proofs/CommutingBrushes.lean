import Terrarium.Proofs.BrushStrokes
import Terrarium.Proofs.GridLocality

/-!
Operations that keep clear of each other. Painting reads and writes the cells of a rectangle, and
smoothing reads those around it too. Where the rectangles of two brushes lie apart, and out of reach
of smoothing, they may paint in either order; and what works on the ground does not meet what works
on the fluid and its sources.
-/
namespace Terrarium

open HeightMap

namespace Rect

variable {d r s : Rect} {x y i j : Nat}

/-- The cells at most so many columns and rows away from a rectangle. -/
def widened (r : Rect) (n : Nat) : Set (Nat × Nat) :=
  {p | (r.x0.toNat ≤ p.1 + n ∧ p.1 < r.x1.toNat + n) ∧ r.y0.toNat ≤ p.2 + n ∧ p.2 < r.y1.toNat + n}

theorem cells_subset_widened (r : Rect) (n : Nat) : {p | p ∈ r.cells} ⊆ r.widened n := by
  rintro ⟨x, y⟩ hp
  obtain ⟨hx, hy⟩ := mem_cells.mp hp
  change (_ ∧ _) ∧ _ ∧ _
  omega

theorem mem_widened_of_near (hp : (x, y) ∈ r.cells) (hnear : Near x y i j) :
    (i, j) ∈ r.widened smoothWindow := by
  obtain ⟨hx, hy⟩ := mem_cells.mp hp
  obtain ⟨hi, hj⟩ := hnear
  change (r.x0.toNat ≤ i + 3 ∧ i < r.x1.toNat + 3) ∧ r.y0.toNat ≤ j + 3 ∧ j < r.y1.toNat + 3
  omega

theorem not_mem_widened {n : Nat}
    (hgap : (r.x1.toNat + n ≤ s.x0.toNat ∨ s.x1.toNat + n ≤ r.x0.toNat) ∨
      r.y1.toNat + n ≤ s.y0.toNat ∨ s.y1.toNat + n ≤ r.y0.toNat) :
    ∀ p ∈ s.cells, p ∉ r.widened n := by
  rintro ⟨x, y⟩ hp ⟨hx, hy⟩
  obtain ⟨hx', hy'⟩ := mem_cells.mp hp
  dsimp only at hx hy
  omega

theorem union_eq (hr : r.isEmpty = false) (hs : s.isEmpty = false) :
    r.union s = ⟨min r.x0 s.x0, min r.y0 s.y0, max r.x1 s.x1, max r.y1 s.y1⟩ := by
  rw [union, hr, hs]
  rfl

theorem isEmpty_union (hr : r.isEmpty = false) (hs : s.isEmpty = false) :
    (r.union s).isEmpty = false := by
  rw [union_eq hr hs]
  rw [← Bool.not_eq_true, isEmpty_iff] at hr hs ⊢
  simp only [toNat_min, toNat_max]
  omega

theorem union_right_comm (hr : r.isEmpty = false) (hs : s.isEmpty = false) :
    (d.union r).union s = (d.union s).union r := by
  cases hd : d.isEmpty with
  | true =>
      have hfirst (a : Rect) : d.union a = a := by
        rw [union, hd]
        rfl
      rw [hfirst, hfirst, union_eq hr hs, union_eq hs hr]
      simp only [← UInt32.toNat_inj, Rect.mk.injEq, toNat_min, toNat_max]
      omega
  | false =>
      rw [union_eq (isEmpty_union hd hr) hs, union_eq (isEmpty_union hd hs) hr, union_eq hd hr,
        union_eq hd hs]
      simp only [← UInt32.toNat_inj, Rect.mk.injEq, toNat_min, toNat_max]
      omega

end Rect

namespace Brush

variable {α : Type} {size : UInt32} {reads writes : Set (Nat × Nat)} {r : Rect}
  {rule : Grid α → Nat → Nat → Float32 → Grid α}

theorem local_paint (b : Brush) (hsub : writes ⊆ reads)
    (hrule : ∀ x y d, (x, y) ∈ r.cells → Grid.Local size reads writes fun g => rule g x y d) :
    Grid.Local size reads writes (b.paint r rule) := by
  refine Grid.Local.foldl hsub ?_
  rintro ⟨x, y⟩ hp
  cases hweight : b.weight? x y with
  | none => simpa only [hweight] using Grid.Local.id hsub
  | some d => simpa only [hweight] using hrule x y d hp

end Brush

theorem HeightMap.local_smoothRule {size : UInt32} {reads writes : Set (Nat × Nat)} {x y : Nat}
    (hsub : writes ⊆ reads) (hp : (x, y) ∈ writes) (hnear : ∀ i j, Near x y i j → (i, j) ∈ reads)
    (d : Float32) : Grid.Local size reads writes fun g => smoothRule g x y d := by
  refine ⟨hsub, fun g hg => ?_, fun g h hg hgh => ?_⟩
  · rw [smoothRule]
    split
    · exact .refl _ g
    · exact (Grid.Local.modify hsub hp _).outside g hg
  · have haverage : average g x y = average h x y :=
      average_congr hgh.size_eq fun i j hij => hgh.get?_eq i j (hnear i j hij)
    rw [smoothRule, smoothRule, haverage]
    split
    · exact hgh
    · exact hgh.modify x y _

theorem Fluid.local_raise {size : UInt32} (b : Brush) (r : Rect) :
    Grid.Local size (r.widened 0) {p | p ∈ r.cells} (b.paint r raiseRule) := by
  have hsub := r.cells_subset_widened 0
  exact b.local_paint hsub fun x y d hp => .modify hsub hp _

namespace Operation

variable {size : UInt32} {op : Operation} {b : Brush} {r : Rect}
  {rule : Grid Float32 → Nat → Nat → Float32 → Grid Float32}

/-- The rectangle that the brush of an operation covers. -/
def Covers (size : UInt32) (op : Operation) (r : Rect) : Prop :=
  ∃ b, op.brush? = some b ∧ b.footprint size = .ok r

/-- How far an operation looks around the cells that it paints. -/
def reach : Operation → Nat
  | .terraformSmooth _ => smoothWindow
  | _ => 0

/-- Operations that keep clear of each other: no cell that one covers is covered by the other one or
lies within its reach. -/
def Separate (size : UInt32) (a c : Operation) : Prop :=
  ∀ r s, a.Covers size r → c.Covers size s →
    (∀ p ∈ s.cells, p ∉ r.widened a.reach) ∧ ∀ p ∈ r.cells, p ∉ s.widened c.reach

theorem isEmpty_of_footprint (hfoot : b.footprint size = .ok r) : r.isEmpty = false := by
  rw [Brush.footprint] at hfoot
  split at hfoot
  · cases hfoot
  · split at hfoot
    · cases hfoot
    · rename_i hcells
      cases hfoot
      exact Bool.eq_false_iff.mpr hcells

theorem local_paint (hop : op.painting? = some (b, rule)) :
    Grid.Local size (r.widened op.reach) {p | p ∈ r.cells} (b.paint r rule) := by
  have hsub := r.cells_subset_widened op.reach
  refine b.local_paint hsub fun x y d hp => ?_
  cases op with
  | terraformSmooth b =>
      cases hop
      exact local_smoothRule hsub hp (fun i j hij => Rect.mem_widened_of_near hp hij) d
  | terraformRaise b | terraformLevel b reference
  | terraformRamp b start startHeight stop stopHeight =>
      cases hop
      exact .modify hsub hp _
  | _ => cases hop

theorem brush?_of_painting (hop : op.painting? = some (b, rule)) : op.brush? = some b := by
  cases op <;> cases hop <;> rfl

/-- What an operation makes of the ground: nothing if it fails, or else a painted rectangle that is
announced. -/
inductive Groundwork (size : UInt32) (op : Operation) : (HeightMap → HeightMap) → Prop where
  | idle : Groundwork size op id
  | painted {b : Brush} {r : Rect} {rule : Grid Float32 → Nat → Nat → Float32 → Grid Float32}
      (hop : op.painting? = some (b, rule)) (hfoot : b.footprint size = .ok r) :
      Groundwork size op fun m => ⟨b.paint r rule m.heights, m.dirty.union r⟩

/-- What an operation makes of the back buffer of the fluid. -/
inductive Fluidwork (size : UInt32) (b : Brush) : (Grid Cell → Grid Cell) → Prop where
  | idle : Fluidwork size b id
  | painted {r : Rect} (hfoot : b.footprint size = .ok r) :
      Fluidwork size b (b.paint r Fluid.raiseRule)

variable {a c : Operation} {m : HeightMap} {F G : HeightMap → HeightMap} {b b' : Brush}
  {f k : Grid Cell → Grid Cell} {g : Grid Cell}

theorem Groundwork.size_eq (hF : Groundwork size op F) (m : HeightMap) : (F m).size = m.size := by
  cases hF with
  | idle => rfl
  | painted hop hfoot =>
      exact Brush.size_paint _ _ (op.groundRule_painting hop).size_eq m.heights

theorem Fluidwork.size_eq (hf : Fluidwork size b f) (g : Grid Cell) : (f g).size = g.size := by
  cases hf with
  | idle => rfl
  | painted hfoot => exact Brush.size_paint _ _ (fun g x y _ => g.size_modify x y _) g

theorem Separate.commute {α : Type} {s : Rect} {f k : Grid α → Grid α} {g : Grid α}
    (hclear : Separate size a c) (hr : a.Covers size r) (hs : c.Covers size s)
    (hf : Grid.Local size (r.widened a.reach) {p | p ∈ r.cells} f)
    (hk : Grid.Local size (s.widened c.reach) {p | p ∈ s.cells} k) (hg : g.size = size) :
    f (k g) = k (f g) := by
  obtain ⟨hother, hthis⟩ := hclear r s hr hs
  exact hf.commute hk hthis hother hg

theorem Groundwork.commute (hF : Groundwork size a F) (hG : Groundwork size c G)
    (hclear : Separate size a c) (hm : m.size = size) : F (G m) = G (F m) := by
  cases hF with
  | idle => rfl
  | @painted b r rule hop hfoot =>
      cases hG with
      | idle => rfl
      | @painted b' s rule' hop' hfoot' =>
          have hheights : b.paint r rule (b'.paint s rule' m.heights) =
              b'.paint s rule' (b.paint r rule m.heights) :=
            hclear.commute ⟨b, brush?_of_painting hop, hfoot⟩
              ⟨b', brush?_of_painting hop', hfoot'⟩ (local_paint hop) (local_paint hop') hm
          have hdirty : (m.dirty.union s).union r = (m.dirty.union r).union s :=
            Rect.union_right_comm (isEmpty_of_footprint hfoot') (isEmpty_of_footprint hfoot)
          exact congrArg₂ HeightMap.mk hheights hdirty

theorem Fluidwork.commute (hf : Fluidwork size b f) (hk : Fluidwork size b' k)
    (hclear : Separate size (.fluidRaise b) (.fluidRaise b')) (hg : g.size = size) :
    f (k g) = k (f g) := by
  cases hf with
  | idle => rfl
  | @painted r hfoot =>
      cases hk with
      | idle => rfl
      | @painted s hfoot' =>
          exact hclear.commute ⟨b, rfl, hfoot⟩ ⟨b', rfl, hfoot'⟩ (Fluid.local_raise b r)
            (Fluid.local_raise b' s) hg

end Operation

namespace World

open Operation

variable {a c op : Operation} {b : Brush} {size : UInt32}
  {rule : Grid Float32 → Nat → Nat → Float32 → Grid Float32}

theorem apply_painting (hop : op.painting? = some (b, rule)) :
    (∃ e, ∀ w : World, w.apply op = .error e) ∨
      ∀ w : World, w.apply op = w.paintGround b rule := by
  cases op with
  | terraformRaise b' | terraformLevel b' reference | terraformSmooth b' =>
      cases hop
      exact .inr fun _ => rfl
  | terraformRamp b' start startHeight stop stopHeight =>
      cases hop
      by_cases hshort : (stop - start).length < 1
      · exact .inl ⟨Objection.shortRamp.failure, fun _ => if_pos hshort⟩
      · exact .inr fun _ => if_neg hshort
  | _ => cases hop

theorem met_painting (hop : op.painting? = some (b, rule)) (w : World) : w.met op = w := by
  cases op <;> first | rfl | cases hop

/-- How an operation on the ground ends depends on the size of the ground alone. -/
theorem exists_groundwork (hop : op.painting? = some (b, rule)) (size : UInt32) :
    ∃ o F, Groundwork size op F ∧
      ∀ w : World, w.ground.size = size → w.execute op = (o, { w with ground := F w.ground }) := by
  rcases apply_painting hop with ⟨e, herror⟩ | hpaint
  · refine ⟨.failure e, id, .idle, fun w _ => ?_⟩
    rw [execute_eq, met_painting hop, herror]
    rfl
  · cases hfoot : b.footprint size with
    | error e =>
        refine ⟨.failure e, id, .idle, fun w hw => ?_⟩
        rw [execute_eq, met_painting hop, hpaint, paintGround, painted, hw, hfoot]
        rfl
    | ok r =>
        refine ⟨.success (.terrain r), _, .painted hop hfoot, fun w hw => ?_⟩
        have hclipped : r.clipped (b.paint r rule w.ground.heights).size = r := by
          rw [b.size_paint r (op.groundRule_painting hop).size_eq]
          exact Brush.clipped_footprint (hw ▸ hfoot)
        rw [execute_eq, met_painting hop, hpaint, paintGround, painted, hw, hfoot]
        dsimp only
        rw [announce, HeightMap.size, hclipped]

theorem exists_fluidwork (b : Brush) (size : UInt32) :
    ∃ o f, Fluidwork size b f ∧
      ∀ w : World, w.basin.size = size →
        w.execute (.fluidRaise b) = (o, { w with basin := w.basin.write f }) := by
  cases hfoot : b.footprint size with
  | error e =>
      refine ⟨.failure e, id, .idle, fun w hw => ?_⟩
      have hsize : w.wait.basin.size = size := w.basin.size_wait.trans hw
      rw [execute_eq, met, writesFluid, if_pos rfl, apply, paintFluid, hsize, hfoot]
      rfl
  | ok r =>
      refine ⟨.success (.fluid r), _, .painted hfoot, fun w hw => ?_⟩
      have hsize : w.wait.basin.size = size := w.basin.size_wait.trans hw
      rw [execute_eq, met, writesFluid, if_pos rfl, apply, paintFluid, hsize, hfoot]
      rfl

/-- The same fluid and objects over other ground. -/
def withGround (w : World) (m : HeightMap) : World := { w with ground := m }

/-- What an operation ends with, over other ground. -/
def endOn (m : HeightMap) (result : Except Failure (Delta × World)) :
    Except Failure (Delta × World) :=
  result.map (Prod.map id (·.withGround m))

variable {w : World} {m : HeightMap}

theorem updateSource_withGround (id : ObjectId) (f : Source → Source) :
    (w.withGround m).updateSource id f = endOn m (w.updateSource id f) := by
  have hsource : (w.withGround m).source? id = w.source? id := rfl
  rw [updateSource, updateSource, hsource]
  cases w.source? id <;> rfl

theorem apply_withGround (hop : op.painting? = none) :
    (w.withGround m).apply op = endOn m (w.apply op) := by
  cases op with
  | terraformRaise | terraformLevel | terraformSmooth | terraformRamp => cases hop
  | fluidRaise b =>
      have hsize : (w.withGround m).basin.size = w.basin.size := rfl
      rw [apply, apply, paintFluid, paintFluid, hsize]
      cases b.footprint w.basin.size <;> rfl
  | sourceCreate id pos radius level capacity =>
      rw [apply, apply, createSource, createSource]
      cases checkPlacement pos radius with
      | error e => rfl
      | ok =>
          have hobjects : (w.withGround m).objects = w.objects := rfl
          rw [hobjects]
          dsimp only
          cases w.objects.createAt id fun id => .source ⟨id, pos, radius, level, capacity⟩ <;> rfl
  | sourceMove id pos =>
      rw [apply, apply, moveSource, moveSource]
      cases checkPlacement pos 0 with
      | error e => rfl
      | ok => exact updateSource_withGround id _
  | sourceSetLevel id level => exact updateSource_withGround id _
  | sourceSetCapacity id capacity => exact updateSource_withGround id _
  | sourceDestroy id =>
      have hsource : (w.withGround m).source? id = w.source? id := rfl
      rw [apply, apply, destroySource, destroySource, hsource]
      cases w.source? id <;> rfl
  | oceanSetLevel level => rfl
  | fluidReset => rfl

theorem execute_withGround (hop : op.painting? = none) :
    (w.withGround m).execute op = ((w.execute op).1, (w.execute op).2.withGround m) := by
  have hmet : (w.withGround m).met op = (w.met op).withGround m := by
    rw [met, met]
    split <;> rfl
  rw [execute_eq, hmet, apply_withGround hop, execute_eq]
  cases (w.met op).apply op <;> rfl

/-- Operations of which neither works on what the other one reads or changes: two that keep clear of
each other on the ground, two that do on the fluid, and one on the ground and one elsewhere. -/
inductive Independent (w : World) : Operation → Operation → Prop where
  | ground {a c : Operation} (ha : a.painting?.isSome) (hc : c.painting?.isSome)
      (hclear : Separate w.ground.size a c) : Independent w a c
  | fluid {b b' : Brush} (hclear : Separate w.basin.size (.fluidRaise b) (.fluidRaise b')) :
      Independent w (.fluidRaise b) (.fluidRaise b')
  | across {a c : Operation} (ha : a.painting?.isSome) (hc : c.painting? = none) :
      Independent w a c

theorem executeAll_pair (w : World) (a c : Operation) :
    w.executeAll [a, c] =
      ([(w.execute a).1, ((w.execute a).2.execute c).1], ((w.execute a).2.execute c).2) := rfl

/-- Independent operations end in the same way, and with the same world, in either order. -/
theorem executeAll_swap (h : w.Independent a c) :
    ∃ oa oc v, w.executeAll [a, c] = ([oa, oc], v) ∧ w.executeAll [c, a] = ([oc, oa], v) := by
  rw [executeAll_pair, executeAll_pair]
  cases h with
  | ground ha hc hclear =>
      obtain ⟨⟨b, rule⟩, ha⟩ := Option.isSome_iff_exists.mp ha
      obtain ⟨⟨b', rule'⟩, hc⟩ := Option.isSome_iff_exists.mp hc
      obtain ⟨oa, F, hF, hrunF⟩ := exists_groundwork ha w.ground.size
      obtain ⟨oc, G, hG, hrunG⟩ := exists_groundwork hc w.ground.size
      refine ⟨oa, oc, { w with ground := G (F w.ground) }, ?_, ?_⟩
      · rw [hrunF w rfl, hrunG _ (hF.size_eq w.ground)]
      · rw [hrunG w rfl, hrunF _ (hG.size_eq w.ground), hF.commute hG hclear rfl]
  | @fluid b b' hclear =>
      obtain ⟨oa, f, hf, hrunf⟩ := exists_fluidwork b w.basin.size
      obtain ⟨oc, k, hk, hrunk⟩ := exists_fluidwork b' w.basin.size
      -- Who comes second waits again, but then there is nothing left to wait for.
      have hwrite : (w.basin.write k).write f = (w.basin.write f).write k :=
        congrArg (fun g => { w.basin.wait with back := g })
          (hf.commute hk hclear w.basin.size_wait)
      refine ⟨oa, oc, { w with basin := (w.basin.write f).write k }, ?_, ?_⟩
      · rw [hrunf w rfl, hrunk _ (w.basin.size_write hf.size_eq)]
      · rw [hrunk w rfl, hrunf _ (w.basin.size_write hk.size_eq), hwrite]
  | across ha hc =>
      obtain ⟨⟨b, rule⟩, ha⟩ := Option.isSome_iff_exists.mp ha
      obtain ⟨oa, F, -, hrun⟩ := exists_groundwork ha w.ground.size
      have hground : (w.execute c).2.ground = w.ground :=
        congrArg (fun s => s.2.ground) (execute_withGround (w := w) (m := w.ground) hc)
      refine ⟨oa, (w.execute c).1, (w.execute c).2.withGround (F w.ground), ?_, ?_⟩
      · rw [hrun w rfl]
        exact congrArg (fun s => ([oa, s.1], s.2)) (execute_withGround (m := F w.ground) hc)
      · rw [hrun _ (congrArg HeightMap.size hground), hground]
        rfl

theorem executeAll_swap_apart :
    let w := new 12
    let smooth : Operation := .terraformSmooth (.uniform 2 2 2 0.5)
    let raise : Operation := .terraformRaise (.uniform 8 2 2 5)
    let rain : Operation := .fluidRaise (.uniform 2 2 2 1)
    w.Independent smooth raise ∧ w.Independent smooth rain ∧
      (∃ oa oc v, w.executeAll [smooth, raise] = ([oa, oc], v) ∧
        w.executeAll [raise, smooth] = ([oc, oa], v)) ∧
      ∃ oa oc v, w.executeAll [smooth, rain] = ([oa, oc], v) ∧
        w.executeAll [rain, smooth] = ([oc, oa], v) := by
  intro w smooth raise rain
  have hclear : Separate w.ground.size smooth raise := by
    rintro r s ⟨b, hb, hr⟩ ⟨b', hb', hs⟩
    cases hb
    cases hb'
    have hsmooth : (Brush.uniform 2 2 2 0.5).footprint 12 = .ok ⟨1, 1, 3, 3⟩ := by decide +kernel
    have hraise : (Brush.uniform 8 2 2 5).footprint 12 = .ok ⟨7, 1, 9, 3⟩ := by decide +kernel
    obtain rfl := Except.ok.inj (hsmooth.symm.trans hr)
    obtain rfl := Except.ok.inj (hraise.symm.trans hs)
    exact ⟨Rect.not_mem_widened (by decide), Rect.not_mem_widened (by decide)⟩
  have hground : w.Independent smooth raise := .ground rfl rfl hclear
  have hacross : w.Independent smooth rain := .across rfl rfl
  exact ⟨hground, hacross, executeAll_swap hground, executeAll_swap hacross⟩

end World

end Terrarium
