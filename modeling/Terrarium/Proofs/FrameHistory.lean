import Mathlib.Algebra.BigOperators.Group.List.Basic
import Mathlib.Algebra.GroupWithZero.Nat
import Mathlib.Data.List.DropRight
import Mathlib.Data.List.Infix
import Mathlib.Data.List.Rotate
import Terrarium.FrameLog

namespace Terrarium

/-- A frame: how long it took, how many operations it executed, and how many of them failed. -/
structure FrameRecord where
  elapsed : Duration
  executed : Nat
  failed : Nat

namespace Duration

/-- The length of some durations together. -/
def total (ds : List Duration) : Nat := (ds.map nanos).sum

theorem sum?_eq {ds : List Duration} (h : total ds < limit) : sum? ds = some ⟨total ds⟩ := by
  have hfold : ds.foldr (fun d n => d.nanos + n) 0 = total ds := by
    rw [total, List.sum, List.foldr_map]
  rw [sum?, hfold]
  exact if_pos h

end Duration

namespace FrameLog

theorem max?_longestOf {ds ds' : List Duration} (h : ds.Perm ds') (hne : ds ≠ []) :
    (ds'.map (·.nanos)).max? = some (longestOf ds).nanos := by
  have hmax : (ds.map (·.nanos)).max? = some (longestOf ds).nanos := by
    obtain ⟨d, rest, rfl⟩ := List.exists_cons_of_ne_nil hne
    rw [longestOf, List.foldl_cons, Nat.zero_max, List.map_cons, List.max?_cons', List.foldl_map]
  rw [List.max?_eq_some_iff] at hmax ⊢
  simpa only [(h.map _).mem_iff] using hmax

/-- The durations of the last frames of a history. -/
def recent (room : Nat) (history : List FrameRecord) : List Duration :=
  (history.map (·.elapsed)).rtake room

variable {room : Nat} {budget : Duration} {past : List FrameRecord} {l : FrameLog}

theorem length_recent (room : Nat) (past : List FrameRecord) :
    (recent room past).length = min past.length room := by
  rw [recent, List.rtake, List.length_drop, List.length_map]
  omega

theorem recent_eq (h : past.length ≤ room) : recent room past = past.map (·.elapsed) := by
  rw [recent, List.rtake, List.length_map, Nat.sub_eq_zero_of_le h, List.drop_zero]

theorem recent_concat_of_lt (h : past.length < room) (f : FrameRecord) :
    recent room (past ++ [f]) = recent room past ++ [f.elapsed] := by
  have hlength : (past ++ [f]).length ≤ room := by
    rw [List.length_append, List.length_singleton]
    exact Nat.succ_le_of_lt h
  rw [recent_eq h.le, recent_eq hlength, List.map_append, List.map_singleton]

theorem recent_concat_of_le (hroom : 0 < room) (h : room ≤ past.length) (f : FrameRecord) :
    recent room (past ++ [f]) = (recent room past).tail ++ [f.elapsed] := by
  obtain ⟨k, rfl⟩ := Nat.exists_eq_add_one_of_ne_zero hroom.ne'
  have hstart : past.length - (k + 1) + 1 = past.length - k := by omega
  rw [recent, List.map_append, List.map_singleton, List.rtake_concat_succ, recent, List.rtake,
    List.rtake, List.length_map, List.tail_drop, hstart]

theorem rotate_set {α : Type} {as : List α} {i : Nat} (hi : i < as.length) (a : α) :
    (as.set i a).rotate (i + 1) = (as.rotate i).tail ++ [a] := by
  have hfront : (as.take i ++ [a]).length = i + 1 := by
    rw [List.length_append, List.length_take, Nat.min_eq_left hi.le, List.length_singleton]
  have hset : as.set i a = (as.take i ++ [a]) ++ as.drop (i + 1) := by
    rw [List.set_eq_take_append_cons_drop, if_pos hi, List.append_assoc, List.singleton_append]
  have hrotate := List.rotate_append_length_eq (as.take i ++ [a]) (as.drop (i + 1))
  rw [hfront] at hrotate
  rw [hset, hrotate, List.rotate_eq_drop_append_take hi.le, List.drop_eq_getElem_cons hi,
    List.cons_append, List.tail_cons, List.append_assoc]

/-- Totals of a history of frames. A frame overruns if it takes longer than the budget, and what is
counted may be as large as it likes. -/
structure Totals (budget : Duration) (history : List FrameRecord) (s : FrameStats) : Prop where
  frames : s.frames = history.length
  executed : s.executed = (history.map (·.executed)).sum
  failed : s.failed = (history.map (·.failed)).sum
  overruns : s.overruns = history.countP fun f => budget.nanos < f.elapsed.nanos

/-- Figures of the last frames of a history: the last duration, their average in whole nanoseconds
and the longest of them. -/
structure Figures (room : Nat) (history : List FrameRecord) (s : FrameStats) : Prop where
  last : (history.map (·.elapsed)).getLast? = some s.last
  average : s.average.nanos =
    Duration.total (recent room history) / (recent room history).length
  longest : ((recent room history).map (·.nanos)).max? = some s.longest.nanos

/-- A log of a window and a budget, with some frames behind it. -/
structure Follows (room : Nat) (budget : Duration) (past : List FrameRecord) (l : FrameLog) :
    Prop where
  window_eq : l.window = room
  budget_eq : l.budget = budget
  next_eq : l.next = past.length % room
  ring_rotate : l.ring.toList.rotate l.next = recent room past
  totals : Totals budget past l.stats
  figures : past ≠ [] → Figures room past l.stats

theorem follows_new (window : Nat) (budget : Duration) :
    (new window budget).Follows (max window 1) budget [] where
  window_eq := rfl
  budget_eq := rfl
  next_eq := (Nat.zero_mod _).symm
  ring_rotate := by
    rw [recent_eq (Nat.zero_le _)]
    rfl
  totals := ⟨rfl, rfl, rfl, rfl⟩
  figures := absurd rfl

theorem Follows.length_ring (hl : l.Follows room budget past) :
    l.ring.toList.length = min past.length room := by
  rw [← length_recent, ← hl.ring_rotate, List.length_rotate]

theorem Follows.rotate_push (hl : l.Follows room budget past) (h : past.length < room)
    (f : FrameRecord) : (l.ring.push f.elapsed).toList.rotate ((l.next + 1) % room) =
      recent room (past ++ [f]) := by
  have hlength := hl.length_ring
  have hring := hl.ring_rotate
  have hnext : l.next = l.ring.toList.length := by
    rw [hl.next_eq, hlength, Nat.mod_eq_of_lt h, Nat.min_eq_left h.le]
  rw [hnext, List.rotate_length] at hring
  have hpush : (l.ring.push f.elapsed).toList = recent room past ++ [f.elapsed] := by
    rw [Array.toList_push, hring]
  have hlast : (recent room past ++ [f.elapsed]).length = l.next + 1 := by
    rw [List.length_append, length_recent, hnext, hlength, List.length_singleton]
  rw [recent_concat_of_lt h, hpush]
  rcases Nat.lt_or_eq_of_le (Nat.succ_le_of_lt h) with hlt | heq
  · rw [Nat.mod_eq_of_lt (by omega), ← hlast, List.rotate_length]
  · have hround : (l.next + 1) % room = 0 := by
      rw [← heq, hnext, hlength, Nat.min_eq_left h.le, Nat.mod_self]
    rw [hround, List.rotate_zero]

/-- The full ring goes round: the place that is overwritten is the one of the first of the last
frames. -/
theorem Follows.rotate_set (hl : l.Follows room budget past) (hroom : 0 < room)
    (h : room ≤ past.length) (f : FrameRecord) :
    (l.ring.setIfInBounds l.next f.elapsed).toList.rotate ((l.next + 1) % room) =
      recent room (past ++ [f]) := by
  have hlength : l.ring.toList.length = room := by rw [hl.length_ring, Nat.min_eq_right h]
  have hnext : l.next < l.ring.toList.length := by
    rw [hl.next_eq, hlength]
    exact Nat.mod_lt _ hroom
  have hmod := List.rotate_mod (l.ring.toList.set l.next f.elapsed) (l.next + 1)
  rw [List.length_set, hlength] at hmod
  rw [Array.toList_setIfInBounds, hmod, FrameLog.rotate_set hnext, hl.ring_rotate,
    recent_concat_of_le hroom h]

theorem Follows.rotate_ringWith (hl : l.Follows room budget past) (hroom : 0 < room)
    (f : FrameRecord) : (l.ringWith f.elapsed).toList.rotate ((l.next + 1) % room) =
      recent room (past ++ [f]) := by
  have hlength := hl.length_ring
  rw [Array.length_toList] at hlength
  rw [ringWith, hl.window_eq]
  split
  · exact hl.rotate_push (by omega) f
  · exact hl.rotate_set hroom (by omega) f

theorem Totals.concat {s : FrameStats} (h : Totals budget past s) (f : FrameRecord)
    (last average longest : Duration) : Totals budget (past ++ [f])
      { frames := s.frames + 1
        executed := s.executed + f.executed
        failed := s.failed + f.failed
        overruns := s.overruns + (decide (budget.nanos < f.elapsed.nanos)).toNat
        last, average, longest } where
  frames := by rw [h.frames, List.length_append, List.length_singleton]
  executed := by simp [h.executed]
  failed := by simp [h.failed]
  overruns := by
    rw [h.overruns, List.countP_append, List.countP_singleton]
    split <;> simp_all

/-- A frame is recorded if the last durations have a sum, and the log then follows the history with
the frame. -/
theorem Follows.record (hl : l.Follows room budget past) (hroom : 0 < room) (f : FrameRecord)
    (hsum : Duration.total (recent room (past ++ [f])) < Duration.limit) :
    ∃ next, l.record f.elapsed f.executed f.failed =
        some (decide (budget.nanos < f.elapsed.nanos), next) ∧
      next.Follows room budget (past ++ [f]) := by
  have hrotate := hl.rotate_ringWith hroom f
  have hperm := List.rotate_perm (l.ringWith f.elapsed).toList ((l.next + 1) % room)
  rw [hrotate] at hperm
  have htotal : Duration.total (recent room (past ++ [f])) =
      Duration.total (l.ringWith f.elapsed).toList := (hperm.map _).sum_eq
  have hlength : (recent room (past ++ [f])).length = (l.ringWith f.elapsed).size :=
    hperm.length_eq
  have hne : (l.ringWith f.elapsed).toList ≠ [] := by
    rw [← List.length_pos_iff, Array.length_toList, ← hlength, length_recent, List.length_append,
      List.length_singleton]
    omega
  have hnext : (l.next + 1) % room = (past ++ [f]).length % room := by
    rw [hl.next_eq, Nat.mod_add_mod, List.length_append, List.length_singleton]
  rw [FrameLog.record]
  simp only [Duration.sum?_eq (htotal ▸ hsum), hl.budget_eq, hl.window_eq]
  refine ⟨_, rfl, rfl, rfl, hnext, hrotate, hl.totals.concat f _ _ _, fun _ => ⟨?_, ?_, ?_⟩⟩
  · rw [List.map_append, List.map_singleton, List.getLast?_concat]
  · rw [htotal, hlength]
  · exact max?_longestOf hperm.symm hne

/-- Records frames in turn, and says of each whether it overran the budget. -/
def recordAll (l : FrameLog) : List FrameRecord → Option (List Bool × FrameLog)
  | [] => some ([], l)
  | f :: fs =>
      match l.record f.elapsed f.executed f.failed with
      | none => none
      | some (overran, next) => (next.recordAll fs).map fun rest => (overran :: rest.1, rest.2)

/-- The last durations have a sum at every time in a history. -/
def Summable (room : Nat) (history : List FrameRecord) : Prop :=
  ∀ past, past <+: history → Duration.total (recent room past) < Duration.limit

theorem Follows.recordAll (hl : l.Follows room budget past) (hroom : 0 < room)
    (fs : List FrameRecord) (hsum : Summable room (past ++ fs)) :
    ∃ next, l.recordAll fs = some (fs.map fun f => decide (budget.nanos < f.elapsed.nanos), next) ∧
      next.Follows room budget (past ++ fs) := by
  induction fs generalizing past l with
  | nil => exact ⟨l, rfl, by rwa [List.append_nil]⟩
  | cons f fs ih =>
      rw [List.append_cons] at hsum ⊢
      obtain ⟨middle, hrecord, hmiddle⟩ := hl.record hroom f (hsum _ (List.prefix_append _ fs))
      obtain ⟨next, hrest, hnext⟩ := ih hmiddle hsum
      refine ⟨next, ?_, hnext⟩
      rw [FrameLog.recordAll, hrecord]
      dsimp only
      rw [hrest]
      rfl

/-- Whatever frames are recorded, the statistics are those of their history; a window of no frames
counts as one of a single frame. -/
theorem recordAll_sums_up (window : UInt32) (budget : Duration) {history : List FrameRecord}
    (hne : history ≠ []) (hsum : Summable (max window.toNat 1) history) :
    ∃ l, (new window.toNat budget).recordAll history =
        some (history.map fun f => decide (budget.nanos < f.elapsed.nanos), l) ∧
      l.windowLength = min history.length (max window.toNat 1) ∧
      Totals budget history l.stats ∧ Figures (max window.toNat 1) history l.stats := by
  obtain ⟨l, hrecord, hl⟩ :=
    (follows_new window.toNat budget).recordAll (Nat.le_max_right _ 1) history hsum
  exact ⟨l, hrecord, hl.length_ring, hl.totals, hl.figures hne⟩

theorem recordAll_sums_up_round :
    let history : List FrameRecord := [⟨⟨10⟩, 2, 1⟩, ⟨⟨20⟩, 2, 1⟩, ⟨⟨60⟩, 2, 1⟩, ⟨⟨40⟩, 2, 1⟩]
    history ≠ [] ∧ Summable 3 history ∧
      ∃ l, (new 3 ⟨50⟩).recordAll history = some ([false, false, true, false], l) ∧
        l.windowLength = 3 ∧ l.stats.frames = 4 ∧ l.stats.overruns = 1 ∧
        l.stats.average = ⟨40⟩ ∧ l.stats.longest = ⟨60⟩ := by
  intro history
  have hsum : Summable 3 history := fun past hpast =>
    (by decide : ∀ past ∈ history.inits, Duration.total (recent 3 past) < Duration.limit) past
      ((List.mem_inits past history).mpr hpast)
  obtain ⟨l, hrecord, hlength, htotals, hfigures⟩ :=
    recordAll_sums_up 3 ⟨50⟩ (List.cons_ne_nil _ _) hsum
  have hlongest : some 60 = some l.stats.longest.nanos := hfigures.longest
  exact ⟨List.cons_ne_nil _ _, hsum, l, hrecord, hlength, htotals.frames, htotals.overruns,
    congrArg Duration.mk hfigures.average, congrArg Duration.mk (Option.some.inj hlongest).symm⟩

end FrameLog

end Terrarium
