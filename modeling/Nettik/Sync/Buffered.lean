import Mathlib.Algebra.Order.Field.Rat
import Mathlib.Tactic.NormNum
import Nettik.Sync.Kinds

/-!
# Buffered vectors

`CNetVarBufferedVector` keeps the last four points it received and renders a point between the last two.
Floats are rational numbers here, and distances are compared by their squares.

* `getInterpolated`, `setRaw`: the code; `render` the point shown now, `between` the one between the last
  two points;
* `render_setRaw`: the point shown after an update;
* **`smooth_iff`**: when updates that come close make no jump.
-/

namespace Nettik

open Links

/-! ## Vectors of rationals -/

namespace CVector3

instance : Add (CVector3 ℚ) := ⟨fun v₁ v₂ => ⟨v₁.x + v₂.x, v₁.y + v₂.y, v₁.z + v₂.z⟩⟩

instance : Sub (CVector3 ℚ) := ⟨fun v₁ v₂ => ⟨v₁.x - v₂.x, v₁.y - v₂.y, v₁.z - v₂.z⟩⟩

def scale (v : CVector3 ℚ) (s : ℚ) : CVector3 ℚ := ⟨v.x * s, v.y * s, v.z * s⟩

def lengthSquared (v : CVector3 ℚ) : ℚ := v.x * v.x + v.y * v.y + v.z * v.z

/-- `DistanceTo`, squared. -/
def distanceToSquared (v p : CVector3 ℚ) : ℚ :=
  (p.x - v.x) * (p.x - v.x) + (p.y - v.y) * (p.y - v.y) + (p.z - v.z) * (p.z - v.z)

@[simp] theorem add_scale_zero (v w : CVector3 ℚ) : v + w.scale 0 = v := by
  show CVector3.mk (v.x + w.x * 0) (v.y + w.y * 0) (v.z + w.z * 0) = v
  simp

end CVector3

def kMaxInterpolationDistance : ℚ := 18

def kMaxInterpolationBandingDist : ℚ := 40

def kMaxInterpolationScale : ℚ := 12 / 10

/-! ## The variable -/

/-- `mod_wrap` keeps the index below four. Times are in milliseconds; before `calculatedFrameTime` they
are whatever was in memory. -/
structure CNetVarBufferedVector extends CNetVarBase (CVector3 ℚ) where
  buffers : Fin 4 → CVector3 ℚ
  activePositionIndex : Fin 4 := 0
  elapsedTime : ℕ
  timeFrame : ℕ
  calculatedFrameTime : Bool := false
  calculatedPreviousFrameTime : Bool := false

namespace CNetVarBufferedVector

def getLive (isLocal : Bool) (v : CNetVarBufferedVector) : CVector3 ℚ :=
  if isLocal then v.data else v.buffers v.activePositionIndex

/-- `GetInterpolated` of a variable with more than one change. -/
def interpolate (dtms : ℕ) (v : CNetVarBufferedVector) : CVector3 ℚ × CNetVarBufferedVector :=
  let «from» := v.buffers (v.activePositionIndex - 1)
  let «to» := v.buffers v.activePositionIndex
  let heading := «to» - «from»
  if kMaxInterpolationDistance ^ 2 < heading.lengthSquared then («to», v)
  else if !v.calculatedFrameTime || v.timeFrame == 0 then («to», v)
  else
    let v := { v with elapsedTime := v.elapsedTime + dtms / 2 }
    let fDT : ℚ := v.elapsedTime / v.timeFrame
    if fDT ≤ kMaxInterpolationScale then («from» + heading.scale fDT, v) else («to», v)

def getInterpolated (isLocal : Bool) (dtms : ℕ) (v : CNetVarBufferedVector) :
    CVector3 ℚ × CNetVarBufferedVector :=
  if v.changes ≤ 1 then (v.getLive isLocal, v) else v.interpolate dtms

/-- The beginning of `Set`. -/
def counted (v : CNetVarBufferedVector) : CNetVarBufferedVector :=
  { v with changes := v.changes + 1, changed := true }

/-- The point that was shown becomes the previous one, unless the new one is too far from it. -/
def setRaw (isLocal : Bool) (networkRate : ℕ) (point : CVector3 ℚ) (v : CNetVarBufferedVector) :
    CNetVarBufferedVector :=
  if v.locked then v
  else
    let indexNew := v.activePositionIndex + 1
    let v := v.counted
    if isLocal then { v with data := point }
    else
      let (renderPoint, v) := v.getInterpolated isLocal 0
      let buffers := Function.update v.buffers indexNew point
      let currentPoint := buffers indexNew
      let buffers :=
        if renderPoint.distanceToSquared currentPoint ≤ kMaxInterpolationBandingDist ^ 2 then
          Function.update buffers v.activePositionIndex renderPoint
        else buffers
      let v := { v with buffers := buffers, activePositionIndex := indexNew }
      let v :=
        if v.calculatedPreviousFrameTime then
          { v with calculatedFrameTime := true, timeFrame := networkRate }
        else v
      { v with calculatedPreviousFrameTime := true, elapsedTime := 0 }

def clearChanges (v : CNetVarBufferedVector) : CNetVarBufferedVector := { v with changes := 0 }

/-- The point shown for an object that is not `LOCAL`. -/
def render (v : CNetVarBufferedVector) : CVector3 ℚ := (v.getInterpolated false 0).1

/-- The point between the last two, whatever the counter says. -/
def between (v : CNetVarBufferedVector) : CVector3 ℚ := (v.interpolate 0).1

/-- The last point. -/
def last (v : CNetVarBufferedVector) : CVector3 ℚ := v.buffers v.activePositionIndex

/-- The previous point. -/
def previous (v : CNetVarBufferedVector) : CVector3 ℚ := v.buffers (v.activePositionIndex - 1)

variable {v : CNetVarBufferedVector} {point : CVector3 ℚ} {networkRate : ℕ}

/-! ## Reading -/

theorem between_eq (v : CNetVarBufferedVector) : v.between =
    let «from» := v.buffers (v.activePositionIndex - 1)
    let fDT : ℚ := v.elapsedTime / v.timeFrame
    if kMaxInterpolationDistance ^ 2 < «from».distanceToSquared v.last then v.last
    else if !v.calculatedFrameTime || v.timeFrame == 0 then v.last
    else if fDT ≤ kMaxInterpolationScale then «from» + (v.last - «from»).scale fDT
    else v.last := by
  simp only [between, interpolate, Nat.zero_div, Nat.add_zero, apply_ite Prod.fst]
  rfl

theorem interpolate_zero (v : CNetVarBufferedVector) : v.interpolate 0 = (v.between, v) := by
  refine Prod.ext rfl ?_
  simp only [interpolate, Nat.zero_div, Nat.add_zero]
  split_ifs <;> rfl

theorem getInterpolated_zero (v : CNetVarBufferedVector) :
    v.getInterpolated false 0 = (v.render, v) := by
  refine Prod.ext rfl ?_
  rw [getInterpolated, interpolate_zero]
  split_ifs <;> rfl

theorem render_eq (v : CNetVarBufferedVector) :
    v.render = if v.changes ≤ 1 then v.last else v.between := by
  rw [render, getInterpolated, interpolate_zero]
  split_ifs <;> rfl

/-- A read moves the time and nothing else. -/
theorem getInterpolated_snd (isLocal : Bool) (dtms : ℕ) (v : CNetVarBufferedVector) :
    ∃ t, (v.getInterpolated isLocal dtms).2 = { v with elapsedTime := t } := by
  simp only [getInterpolated, interpolate]
  split_ifs <;> exact ⟨_, rfl⟩

/-! ## Writing -/

theorem setRaw_of_locked (h : v.locked = true) (isLocal : Bool) :
    v.setRaw isLocal networkRate point = v := by
  rw [setRaw, if_pos h]

/-- The buffers with a new point in the next slot and the shown point behind it. -/
def banded (v : CNetVarBufferedVector) (point : CVector3 ℚ) : Fin 4 → CVector3 ℚ :=
  let buffers := Function.update v.buffers (v.activePositionIndex + 1) point
  if v.counted.render.distanceToSquared point ≤ kMaxInterpolationBandingDist ^ 2 then
    Function.update buffers v.activePositionIndex v.counted.render
  else buffers

/-- **What an update does** to a variable that is not locked. The second one starts the clock. -/
theorem setRaw_of_unlocked (h : v.locked = false) : v.setRaw false networkRate point =
    { v.counted with
      buffers := v.banded point
      activePositionIndex := v.activePositionIndex + 1
      calculatedFrameTime := v.calculatedPreviousFrameTime || v.calculatedFrameTime
      timeFrame := if v.calculatedPreviousFrameTime then networkRate else v.timeFrame
      calculatedPreviousFrameTime := true
      elapsedTime := 0 } := by
  have hprev : v.counted.calculatedPreviousFrameTime = v.calculatedPreviousFrameTime := rfl
  simp only [setRaw, h, Bool.false_eq_true, if_false, getInterpolated_zero, Function.update_self, hprev]
  cases v.calculatedPreviousFrameTime <;> rfl

theorem add_one_ne (i : Fin 4) : i + 1 ≠ i := by
  revert i
  decide

theorem add_one_sub_one (i : Fin 4) : i + 1 - 1 = i := by
  revert i
  decide

theorem banded_new (v : CNetVarBufferedVector) (point : CVector3 ℚ) :
    v.banded point (v.activePositionIndex + 1) = point := by
  rw [banded]
  split_ifs
  · rw [Function.update_of_ne (add_one_ne _), Function.update_self]
  · rw [Function.update_self]

theorem banded_previous (v : CNetVarBufferedVector) (point : CVector3 ℚ) :
    v.banded point v.activePositionIndex =
      if v.counted.render.distanceToSquared point ≤ kMaxInterpolationBandingDist ^ 2 then
        v.counted.render else v.last := by
  rw [banded]
  split_ifs
  · rw [Function.update_self]
  · rw [Function.update_of_ne (add_one_ne _).symm]
    rfl

/-- With the clock at zero the previous point is shown, if the new one is close to it. -/
theorem between_of_start (hframe : v.calculatedFrameTime = true) (hrate : v.timeFrame ≠ 0)
    (hstart : v.elapsedTime = 0) : v.between =
      if kMaxInterpolationDistance ^ 2 <
          (v.buffers (v.activePositionIndex - 1)).distanceToSquared v.last then v.last
      else v.buffers (v.activePositionIndex - 1) := by
  have hscale : (0 : ℚ) ≤ kMaxInterpolationScale := by
    unfold kMaxInterpolationScale
    norm_num
  simp only [between_eq, hframe, hstart, beq_false_of_ne hrate, Bool.not_true, Bool.or_self,
    Bool.false_eq_true, if_false, Nat.cast_zero, zero_div, if_pos hscale, CVector3.add_scale_zero]

/-- **The point shown after an update**, from the second one on. -/
theorem render_setRaw (h : v.locked = false) (hprev : v.calculatedPreviousFrameTime = true)
    (hrate : networkRate ≠ 0) : (v.setRaw false networkRate point).render =
      if v.changes + 1 ≤ 1 then point
      else if kMaxInterpolationDistance ^ 2 <
          (v.banded point v.activePositionIndex).distanceToSquared point then point
      else v.banded point v.activePositionIndex := by
  rw [render_eq, setRaw_of_unlocked h, between_of_start (by simp [hprev]) (by simp [hprev, hrate]) rfl]
  simp only [last, add_one_sub_one, banded_new, counted]

/-! ## Jumps -/

/-- An update comes within both distances of the point that is shown. -/
def Near (v : CNetVarBufferedVector) (point : CVector3 ℚ) : Prop :=
  v.render.distanceToSquared point ≤ kMaxInterpolationDistance ^ 2 ∧
    v.render.distanceToSquared point ≤ kMaxInterpolationBandingDist ^ 2

instance (v : CNetVarBufferedVector) (point : CVector3 ℚ) : Decidable (v.Near point) :=
  inferInstanceAs (Decidable (_ ∧ _))

/-- When an update that comes near makes no jump: the counter was at two or more. At zero (and where it
wraps) only the shown point itself makes none; at one, when the last two points are blended to the last
one, or are blended to a point so far from the new one that it is not used. -/
def Ready (v : CNetVarBufferedVector) (point : CVector3 ℚ) : Prop :=
  if v.locked then True
  else if v.changes + 1 ≤ 1 then point = v.render
  else if v.changes = 1 then
    v.between = v.last ∨ kMaxInterpolationBandingDist ^ 2 < v.between.distanceToSquared point ∨
      kMaxInterpolationDistance ^ 2 < v.between.distanceToSquared point ∧ point = v.last
  else True

theorem render_counted (v : CNetVarBufferedVector) :
    v.counted.render = if v.changes + 1 ≤ 1 then v.last else v.between := by
  have hbetween : v.counted.between = v.between := by
    rw [between_eq, between_eq]
    rfl
  rw [render_eq, hbetween]
  rfl

theorem le_one_iff {c : UInt32} : c ≤ 1 ↔ c = 0 ∨ c = 1 := by
  rw [UInt32.le_iff_toNat_le, ← UInt32.toNat_inj, ← UInt32.toNat_inj, UInt32.toNat_one, UInt32.toNat_zero]
  omega

/-- From the second change on the shown point is the blend. -/
theorem render_of_many (hlow : ¬ v.changes + 1 ≤ 1) (hone : v.changes ≠ 1) : v.render = v.between := by
  have hmany : ¬ v.changes ≤ 1 := by
    intro hle
    rcases le_one_iff.mp hle with hzero | h
    · exact hlow (by rw [hzero]; decide)
    · exact hone h
  rw [render_eq, if_neg hmany]

/-- At one change the last point is shown, and the blend of the last two is what `Set` renders. -/
theorem banded_eq_last_iff (hdist : v.last.distanceToSquared point ≤ kMaxInterpolationDistance ^ 2) :
    (if kMaxInterpolationDistance ^ 2 <
        (if v.between.distanceToSquared point ≤ kMaxInterpolationBandingDist ^ 2 then v.between
          else v.last).distanceToSquared point then point
      else if v.between.distanceToSquared point ≤ kMaxInterpolationBandingDist ^ 2 then v.between
      else v.last) = v.last ↔
    v.between = v.last ∨ kMaxInterpolationBandingDist ^ 2 < v.between.distanceToSquared point ∨
      kMaxInterpolationDistance ^ 2 < v.between.distanceToSquared point ∧ point = v.last := by
  by_cases hfar : v.between.distanceToSquared point ≤ kMaxInterpolationBandingDist ^ 2
  · rw [if_pos hfar]
    by_cases hmid : kMaxInterpolationDistance ^ 2 < v.between.distanceToSquared point
    · rw [if_pos hmid]
      constructor
      · exact fun h => Or.inr (Or.inr ⟨hmid, h⟩)
      · rintro (h | h | h)
        · exact absurd (h ▸ hmid) (not_lt.mpr hdist)
        · exact absurd hfar (not_le.mpr h)
        · exact h.2
    · rw [if_neg hmid]
      constructor
      · exact Or.inl
      · rintro (h | h | h)
        · exact h
        · exact absurd hfar (not_le.mpr h)
        · exact absurd h.1 hmid
  · rw [if_neg hfar, if_neg (not_lt.mpr hdist)]
    exact iff_of_true rfl (Or.inr (Or.inl (not_le.mp hfar)))

/-- **An update that comes near makes no jump exactly when the variable is ready for it.** -/
theorem render_setRaw_iff (hstarted : v.locked = false → v.calculatedPreviousFrameTime = true)
    (hrate : networkRate ≠ 0) (hnear : v.Near point) :
    (v.setRaw false networkRate point).render = v.render ↔ v.Ready point := by
  rw [Ready]
  cases hl : v.locked with
  | true => simp [setRaw_of_locked hl]
  | false =>
    rw [render_setRaw hl (hstarted hl) hrate, banded_previous, render_counted]
    simp only [Bool.false_eq_true, if_false]
    by_cases hlow : v.changes + 1 ≤ 1
    · rw [if_pos hlow, if_pos hlow]
    simp only [if_neg hlow]
    obtain ⟨hdist, hband⟩ := hnear
    by_cases hone : v.changes = 1
    · have hshown : v.render = v.last := by rw [render_eq, hone, if_pos (by decide)]
      rw [if_pos hone, hshown]
      exact banded_eq_last_iff (hshown ▸ hdist)
    · rw [if_neg hone, ← render_of_many hlow hone, if_pos hband, if_neg (not_lt.mpr hdist)]
      exact iff_of_true rfl trivial

end CNetVarBufferedVector

/-- What happens to the vector of a remote object. -/
inductive BufferAct where
  | set (point : CVector3 ℚ)
  | getInterpolated (dtms : ℕ)
  | clearChanges
  deriving DecidableEq, Repr

/-- A vector, whether it was set before, and whether no update that came near made a jump. -/
structure Rendering where
  var : CNetVarBufferedVector
  started : Bool := false
  smooth : Bool := true

namespace Rendering

open CNetVarBufferedVector

def step (networkRate : ℕ) (s : Rendering) : BufferAct → Rendering
  | .set point =>
    { var := s.var.setRaw false networkRate point
      started := true
      smooth := s.smooth && decide (s.started = true → s.var.Near point →
        (s.var.setRaw false networkRate point).render = s.var.render) }
  | .getInterpolated dtms => { s with var := (s.var.getInterpolated false dtms).2 }
  | .clearChanges => { s with var := s.var.clearChanges }

/-- An update that is not the first and comes near finds the vector ready. -/
def Proper (s : Rendering) : BufferAct → Prop
  | .set point => s.started = true → s.var.Near point → s.var.Ready point
  | _ => True

structure Inv (s : Rendering) : Prop where
  smooth : s.smooth = true
  started : s.started = true → s.var.locked = false → s.var.calculatedPreviousFrameTime = true

variable {networkRate : ℕ} {s : Rendering} {a : BufferAct}

theorem smooth_step_iff (hrate : networkRate ≠ 0) (h : s.Inv) :
    (s.step networkRate a).smooth = true ↔ s.Proper a := by
  cases a with
  | set point =>
    simp only [step, h.smooth, Bool.true_and, decide_eq_true_eq, Proper]
    exact forall_congr' fun hs => forall_congr' fun hn => render_setRaw_iff (h.started hs) hrate hn
  | getInterpolated dtms => exact iff_of_true h.smooth trivial
  | clearChanges => exact iff_of_true h.smooth trivial

theorem inv_step (hrate : networkRate ≠ 0) (h : s.Inv) (hok : s.Proper a) :
    (s.step networkRate a).Inv := by
  refine ⟨(smooth_step_iff hrate h).mpr hok, ?_⟩
  cases a with
  | set point =>
    intro _ hl
    cases hlocked : s.var.locked with
    | true =>
      rw [step, setRaw_of_locked hlocked, hlocked] at hl
      exact absurd hl (by simp)
    | false => rw [step, setRaw_of_unlocked hlocked]
  | getInterpolated dtms =>
    obtain ⟨t, ht⟩ := getInterpolated_snd false dtms s.var
    rw [step, ht]
    exact h.started
  | clearChanges => exact h.started

/-- **When updates make no jump.** In a run of updates, reads and clearings of the counter every update
that is not the first and comes near the shown point leaves that point, exactly when each of them finds
the vector ready. -/
theorem smooth_iff (hrate : networkRate ≠ 0) (v : CNetVarBufferedVector) (acts : List BufferAct) :
    (∀ n, (run (step networkRate) { var := v } (acts.take n)).smooth = true) ↔
      Along (step networkRate) Proper { var := v } acts :=
  forall_run_iff_along (fun _ h => h.smooth) (fun _ _ h hok => inv_step hrate h hok)
    (fun _ _ h hbad hsmooth => hbad ((smooth_step_iff hrate h).mp hsmooth))
    ⟨rfl, fun h => absurd h (by simp)⟩ acts

/-- A new vector at the origin. -/
def newVector : CNetVarBufferedVector where
  data := ⟨0, 0, 0⟩
  buffers _ := ⟨0, 0, 0⟩
  elapsedTime := 0
  timeFrame := 0

/-- Updates to `10` and `12` on one axis, with the changes cleared between them. -/
def clearedRun : List BufferAct := [.set ⟨10, 0, 0⟩, .clearChanges, .set ⟨12, 0, 0⟩]

theorem smooth_iff_cleared : (50 : ℕ) ≠ 0 ∧
    ((∀ n, (run (step 50) { var := newVector } (clearedRun.take n)).smooth = true) ↔
      Along (step 50) Proper { var := newVector } clearedRun) :=
  ⟨by decide, smooth_iff (by decide) newVector clearedRun⟩

theorem not_smooth_cleared : ¬ ∀ (networkRate : ℕ), networkRate ≠ 0 → ∀ (v : CNetVarBufferedVector)
    (acts : List BufferAct) (n : ℕ),
      (run (step networkRate) { var := v } (acts.take n)).smooth = true := by
  intro h
  exact absurd (h 50 (by decide) newVector clearedRun 3) (by decide +kernel)

end Rendering

end Nettik
