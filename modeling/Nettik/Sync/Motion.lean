import Mathlib.Tactic.FieldSimp
import Mathlib.Tactic.Linarith
import Mathlib.Tactic.Positivity
import Mathlib.Tactic.Ring
import Nettik.Lib.Simulation
import Nettik.Sync.Buffered

/-!
# The motion between two updates

* `Travels`, `pointAt`: whether reads move the point that is shown, and the point at a time;
* `getInterpolated_eq`, `getInterpolated_afterReads`: what a read shows, alone and after a row of reads;
* **`motion`**: how the shown point moves until the next update.
-/

namespace Nettik

open Links

namespace CVector3

theorem distanceToSquared_self (p : CVector3 ℚ) : p.distanceToSquared p = 0 := by
  simp [distanceToSquared]

/-- Part of the way leaves the rest of it. -/
theorem distanceToSquared_scale (p q : CVector3 ℚ) (t : ℚ) :
    (p + (q - p).scale t).distanceToSquared q = (1 - t) ^ 2 * p.distanceToSquared q := by
  show (q.x - (p.x + (q.x - p.x) * t)) * (q.x - (p.x + (q.x - p.x) * t)) +
    (q.y - (p.y + (q.y - p.y) * t)) * (q.y - (p.y + (q.y - p.y) * t)) +
    (q.z - (p.z + (q.z - p.z) * t)) * (q.z - (p.z + (q.z - p.z) * t)) = _
  rw [distanceToSquared]
  ring

theorem distanceToSquared_nonneg (p q : CVector3 ℚ) : 0 ≤ p.distanceToSquared q := by
  rw [distanceToSquared]
  exact add_nonneg (add_nonneg (mul_self_nonneg _) (mul_self_nonneg _)) (mul_self_nonneg _)

end CVector3

namespace CNetVarBufferedVector

variable {v : CNetVarBufferedVector}

/-! ## Reads -/

/-- Reads move the clock. -/
structure Travels (v : CNetVarBufferedVector) : Prop where
  changes : ¬ v.changes ≤ 1
  near : v.previous.distanceToSquared v.last ≤ kMaxInterpolationDistance ^ 2
  frame : v.calculatedFrameTime = true
  rate : v.timeFrame ≠ 0

instance (v : CNetVarBufferedVector) : Decidable v.Travels :=
  decidable_of_iff (¬ v.changes ≤ 1 ∧
      v.previous.distanceToSquared v.last ≤ kMaxInterpolationDistance ^ 2 ∧
      v.calculatedFrameTime = true ∧ v.timeFrame ≠ 0)
    ⟨fun h => ⟨h.1, h.2.1, h.2.2.1, h.2.2.2⟩, fun h => ⟨h.changes, h.near, h.frame, h.rate⟩⟩

/-- The point shown when the clock is at `t`. -/
def pointAt (t : ℕ) (v : CNetVarBufferedVector) : CVector3 ℚ :=
  let fDT : ℚ := t / v.timeFrame
  if fDT ≤ kMaxInterpolationScale then v.previous + (v.last - v.previous).scale fDT else v.last

/-- **What a read shows.** -/
theorem getInterpolated_eq (dtms : ℕ) (v : CNetVarBufferedVector) : v.getInterpolated false dtms =
    if v.Travels then
      (v.pointAt (v.elapsedTime + dtms / 2), { v with elapsedTime := v.elapsedTime + dtms / 2 })
    else (v.last, v) := by
  rw [getInterpolated]
  by_cases hchanges : v.changes ≤ 1
  · have hstill : ¬ v.Travels := fun h => h.changes hchanges
    rw [if_neg hstill, if_pos hchanges]
    rfl
  rw [if_neg hchanges, interpolate]
  by_cases hfar : kMaxInterpolationDistance ^ 2 < (v.last - v.previous).lengthSquared
  · have hstill : ¬ v.Travels := fun h => not_le.mpr hfar h.near
    rw [if_neg hstill]
    exact if_pos hfar
  by_cases hclock : (!v.calculatedFrameTime || v.timeFrame == 0) = true
  · have hstill : ¬ v.Travels := fun h => by simp [h.frame, h.rate] at hclock
    rw [if_neg hstill]
    exact (if_neg hfar).trans (if_pos hclock)
  · have htravels : v.Travels := by
      simp only [Bool.or_eq_true, Bool.not_eq_true', beq_iff_eq, not_or, Bool.not_eq_false] at hclock
      exact ⟨hchanges, not_lt.mp hfar, hclock.1, hclock.2⟩
    rw [if_pos htravels]
    refine (if_neg hfar).trans ((if_neg hclock).trans ?_)
    by_cases hscale : ((v.elapsedTime + dtms / 2 : ℕ) : ℚ) / v.timeFrame ≤ kMaxInterpolationScale
    · rw [show v.pointAt (v.elapsedTime + dtms / 2) = _ from if_pos hscale]
      exact if_pos hscale
    · rw [show v.pointAt (v.elapsedTime + dtms / 2) = _ from if_neg hscale]
      exact if_neg hscale

/-- The time a row of reads adds to the clock: half of each, in whole milliseconds. -/
def clock (reads : List ℕ) : ℕ := (reads.map (· / 2)).sum

theorem two_mul_clock_le (reads : List ℕ) : 2 * clock reads ≤ reads.sum := by
  induction reads with
  | nil => exact le_rfl
  | cons dtms reads ih =>
    rw [clock, List.map_cons, List.sum_cons, List.sum_cons]
    rw [clock] at ih
    omega

theorem clock_eq_zero {reads : List ℕ} (h : ∀ d ∈ reads, d ≤ 1) : clock reads = 0 := by
  refine List.sum_eq_zero fun n hn => ?_
  obtain ⟨d, hd, rfl⟩ := List.mem_map.mp hn
  exact Nat.div_eq_of_lt (Nat.lt_succ_of_le (h d hd))

/-- A row of reads. -/
def afterReads (reads : List ℕ) (v : CNetVarBufferedVector) : CNetVarBufferedVector :=
  reads.foldl (fun v dtms => (v.getInterpolated false dtms).2) v

theorem afterReads_eq (reads : List ℕ) (v : CNetVarBufferedVector) : v.afterReads reads =
    if v.Travels then { v with elapsedTime := v.elapsedTime + clock reads } else v := by
  induction reads generalizing v with
  | nil => simp [afterReads, clock]
  | cons dtms reads ih =>
    rw [afterReads, List.foldl_cons, ← afterReads, ih, getInterpolated_eq]
    by_cases h : v.Travels
    · have hmoved : ({ v with elapsedTime := v.elapsedTime + dtms / 2 } : CNetVarBufferedVector).Travels :=
        ⟨h.changes, h.near, h.frame, h.rate⟩
      simp only [if_pos h, if_pos hmoved, clock, List.map_cons, List.sum_cons, Nat.add_assoc]
    · simp only [if_neg h]

theorem getInterpolated_afterReads (reads : List ℕ) (dtms : ℕ) (v : CNetVarBufferedVector) :
    ((v.afterReads reads).getInterpolated false dtms).1 =
      if v.Travels then v.pointAt (v.elapsedTime + clock (reads ++ [dtms])) else v.last := by
  have hclock : clock (reads ++ [dtms]) = clock reads + dtms / 2 := by simp [clock]
  rw [afterReads_eq, hclock]
  by_cases h : v.Travels
  · have hmoved : ({ v with elapsedTime := v.elapsedTime + clock reads } : CNetVarBufferedVector).Travels :=
      ⟨h.changes, h.near, h.frame, h.rate⟩
    rw [if_pos h, if_pos h, getInterpolated_eq, if_pos hmoved, Nat.add_assoc]
    rfl
  · rw [if_neg h, if_neg h, getInterpolated_eq, if_neg h]

/-- An update starts the clock anew. -/
theorem setRaw_starts {networkRate : ℕ} {point : CVector3 ℚ} (h : v.locked = false) :
    (v.setRaw false networkRate point).last = point ∧
      (v.setRaw false networkRate point).elapsedTime = 0 := by
  rw [setRaw_of_unlocked h]
  exact ⟨banded_new v point, rfl⟩

theorem pointAt_zero (v : CNetVarBufferedVector) : v.pointAt 0 = v.previous := by
  have hscale : (0 : ℚ) ≤ kMaxInterpolationScale := by
    unfold kMaxInterpolationScale
    norm_num
  simp only [pointAt, Nat.cast_zero, zero_div, if_pos hscale, CVector3.add_scale_zero]

/-- Past the last point by at most a fifth of the way. -/
theorem pointAt_near (h : v.Travels) (t : ℕ) :
    (v.pointAt t).distanceToSquared v.last ≤ kMaxInterpolationDistance ^ 2 := by
  have hfDT : (0 : ℚ) ≤ t / v.timeFrame := div_nonneg (Nat.cast_nonneg _) (Nat.cast_nonneg _)
  have hdist := CVector3.distanceToSquared_nonneg v.previous v.last
  rw [pointAt]
  split_ifs with hscale
  · have hpast : (t : ℚ) / v.timeFrame ≤ 2 := hscale.trans (by unfold kMaxInterpolationScale; norm_num)
    have hsquare : (1 - (t : ℚ) / v.timeFrame) ^ 2 ≤ 1 := by nlinarith
    rw [CVector3.distanceToSquared_scale]
    exact (mul_le_of_le_one_left hdist hsquare).trans h.near
  · rw [CVector3.distanceToSquared_self]
    exact sq_nonneg _

/-- When the clock has passed the frame by more than a fifth. -/
theorem pointAt_settled (h : v.Travels) {t : ℕ} (ht : 6 * v.timeFrame < 5 * t) : v.pointAt t = v.last := by
  have hrate : (0 : ℚ) < v.timeFrame := Nat.cast_pos.mpr (Nat.pos_of_ne_zero h.rate)
  have hpassed : (6 : ℚ) * v.timeFrame < 5 * t := by exact_mod_cast ht
  have hscale : ¬ (t : ℚ) / v.timeFrame ≤ kMaxInterpolationScale := by
    rw [kMaxInterpolationScale, div_le_iff₀ hrate]
    linarith
  rw [pointAt, if_neg hscale]

/-- When the clock is not past half the frame. -/
theorem pointAt_half (h : v.Travels) {t : ℕ} (ht : 2 * t ≤ v.timeFrame) :
    v.previous.distanceToSquared v.last ≤ 4 * (v.pointAt t).distanceToSquared v.last := by
  have hrate : (0 : ℚ) < v.timeFrame := Nat.cast_pos.mpr (Nat.pos_of_ne_zero h.rate)
  have hpassed : (2 : ℚ) * t ≤ v.timeFrame := by exact_mod_cast ht
  have hhalf : (t : ℚ) / v.timeFrame ≤ 1 / 2 := by
    rw [div_le_iff₀ hrate]
    linarith
  have hscale : (t : ℚ) / v.timeFrame ≤ kMaxInterpolationScale :=
    hhalf.trans (by unfold kMaxInterpolationScale; norm_num)
  have hdist := CVector3.distanceToSquared_nonneg v.previous v.last
  have hrest : 1 ≤ 4 * (1 - (t : ℚ) / v.timeFrame) ^ 2 := by nlinarith
  rw [pointAt, if_pos hscale, CVector3.distanceToSquared_scale, ← mul_assoc]
  exact le_mul_of_one_le_left hdist hrest

end CNetVarBufferedVector

namespace Rendering

open CNetVarBufferedVector

variable {networkRate : ℕ} {s : Rendering} {a : BufferAct}

/-! ## Runs -/

/-- A variable that remote peers can change, whose frame lasts one network rate. -/
structure Clocked (networkRate : ℕ) (s : Rendering) : Prop where
  unlocked : s.var.locked = false
  frame : s.var.calculatedFrameTime = true →
    s.var.calculatedPreviousFrameTime = true ∧ s.var.timeFrame = networkRate

theorem clocked_step (h : s.Clocked networkRate) : (s.step networkRate a).Clocked networkRate := by
  cases a with
  | set point =>
    rw [step, setRaw_of_unlocked h.unlocked]
    refine ⟨h.unlocked, fun hframe => ⟨rfl, ?_⟩⟩
    have hprev : s.var.calculatedPreviousFrameTime = true :=
      (Bool.or_eq_true _ _).mp hframe |>.elim id fun hf => (h.frame hf).1
    exact if_pos hprev
  | getInterpolated dtms =>
    obtain ⟨t, ht⟩ := getInterpolated_snd false dtms s.var
    rw [step, ht]
    exact ⟨h.unlocked, h.frame⟩
  | clearChanges => exact ⟨h.unlocked, h.frame⟩

/-- Reads leave what is around the variable. -/
theorem run_reads (reads : List ℕ) (s : Rendering) :
    (run (step networkRate) s (reads.map .getInterpolated)).var = s.var.afterReads reads := by
  induction reads generalizing s with
  | nil => rfl
  | cons dtms reads ih => exact ih _

/-- The point that the last of a row of reads shows, after `s`. -/
def seen (networkRate : ℕ) (s : Rendering) (reads : List ℕ) (dtms : ℕ) : CVector3 ℚ :=
  ((run (step networkRate) s (reads.map .getInterpolated)).var.getInterpolated false dtms).1

theorem seen_eq (networkRate : ℕ) (s : Rendering) (reads : List ℕ) (dtms : ℕ) :
    s.seen networkRate reads dtms =
      if s.var.Travels then s.var.pointAt (s.var.elapsedTime + clock (reads ++ [dtms])) else s.var.last := by
  rw [seen, run_reads, getInterpolated_afterReads]

/-- **How the shown point moves.** In a run of updates, reads and clearings of the counter of a new
variable, after an update to `point` and a row of reads: the shown point is within the interpolation
distance of `point`; it is `point` once the reads took more than six fifths of the network rate, each
counted by half in whole milliseconds; it is at least half as far from `point` as at the update, while
they took no more than the network rate; and reads of a millisecond or less do not move it at all. -/
theorem motion {v : CNetVarBufferedVector} (hlocked : v.locked = false) (hnew : v.calculatedFrameTime = false)
    (acts : List BufferAct) (point : CVector3 ℚ) (reads : List ℕ) (dtms : ℕ) :
    let s := run (step networkRate) { var := v } (acts ++ [.set point])
    let now := s.seen networkRate reads dtms
    now.distanceToSquared point ≤ kMaxInterpolationDistance ^ 2 ∧
      (6 * networkRate < 5 * clock (reads ++ [dtms]) → now = point) ∧
      ((reads ++ [dtms]).sum ≤ networkRate →
        s.var.render.distanceToSquared point ≤ 4 * now.distanceToSquared point) ∧
      ((∀ d ∈ reads ++ [dtms], d ≤ 1) → now = s.var.render) := by
  intro s now
  have hall : Along (step networkRate) (fun _ _ => True) { var := v } acts :=
    along_of_forall (p := fun _ => True) (fun _ _ => trivial) _
  have hbefore : (run (step networkRate) { var := v } acts).Clocked networkRate :=
    run_inv (fun _ _ h _ => clocked_step h) ⟨hlocked, fun h => absurd h (by simp [hnew])⟩ hall
  have hs : s = (run (step networkRate) { var := v } acts).step networkRate (.set point) := run_append ..
  have hclocked : s.Clocked networkRate := hs ▸ clocked_step hbefore
  obtain ⟨hlast, hstart⟩ : s.var.last = point ∧ s.var.elapsedTime = 0 :=
    hs ▸ setRaw_starts hbefore.unlocked
  have hnow : now = if s.var.Travels then s.var.pointAt (clock (reads ++ [dtms])) else point := by
    rw [← hlast, ← Nat.zero_add (clock _), ← hstart]
    exact seen_eq ..
  have hrender : s.var.render = if s.var.Travels then s.var.previous else point := by
    rw [render, getInterpolated_eq, hstart, hlast, apply_ite Prod.fst, pointAt_zero]
  by_cases htravels : s.var.Travels
  · have hframe := (hclocked.frame htravels.frame).2
    rw [if_pos htravels] at hnow hrender
    rw [hnow, hrender, ← hlast]
    refine ⟨pointAt_near htravels _, fun h => pointAt_settled htravels (hframe ▸ h),
      fun h => ?_, fun h => ?_⟩
    · exact pointAt_half htravels (hframe ▸ (two_mul_clock_le _).trans h)
    · rw [clock_eq_zero h, pointAt_zero]
  · rw [if_neg htravels] at hnow hrender
    rw [hnow, hrender, CVector3.distanceToSquared_self]
    exact ⟨sq_nonneg _, fun _ => rfl, fun _ => by simp, fun _ => rfl⟩

/-- Updates to `10` and `12` on one axis, and a frame between them. -/
def movingRun : List BufferAct := [.set ⟨10, 0, 0⟩, .getInterpolated 16]

theorem motion_moving : newVector.locked = false ∧ newVector.calculatedFrameTime = false ∧
    (let s := run (step 50) { var := newVector } (movingRun ++ [.set ⟨12, 0, 0⟩])
     let now := s.seen 50 [16, 16] 16
     now.distanceToSquared ⟨12, 0, 0⟩ ≤ kMaxInterpolationDistance ^ 2 ∧
      (6 * 50 < 5 * clock ([16, 16] ++ [16]) → now = ⟨12, 0, 0⟩) ∧
      (([16, 16] ++ [16]).sum ≤ 50 →
        s.var.render.distanceToSquared ⟨12, 0, 0⟩ ≤ 4 * now.distanceToSquared ⟨12, 0, 0⟩) ∧
      ((∀ d ∈ [16, 16] ++ [16], d ≤ 1) → now = s.var.render)) :=
  ⟨rfl, rfl, motion rfl rfl movingRun ⟨12, 0, 0⟩ [16, 16] 16⟩

end Rendering

end Nettik
