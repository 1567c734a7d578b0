import Mathlib.Data.List.Induction
import Nettik.Sync.Exchange

/-!
# Numbers an owner chooses

`m_iSequenceID` numbers the frames a side emits and is also the number of the last frame it took, which
the owner of the object chose.

* `accepts`, `act`: what a frame and a snapshot do to one variable, and what others see of it;
* `Emitter`: a variable and the updates it emitted; **`grows_iff`**: their numbers grow exactly as long
  as the counter does not wrap;
* `lock`: the variable `Set` does not reach; **`shutsOut_iff`**: the frames that come while it is locked
  leave no trace exactly when they leave the number alone.
-/

namespace Nettik

open Links

variable {α : Type}

/-! ## Frames and snapshots of one variable -/

inductive VarAct (α : Type) where
  | snapshot (forced : Bool)
  | frame (u : Update α)
  deriving DecidableEq, Repr

/-- A frame that is not filtered. -/
def Update.reaches (controller : UInt32) (u : Update α) : Bool :=
  controller != netControllerLocal || u.forced

namespace CNetVarBase

def accepts (controller : UInt32) (u : Update α) (v : CNetVarBase α) : Bool :=
  u.reaches controller && v.checkSequence u.sequence

/-- The update that is emitted, whether the frame is accepted, and the variable. -/
def act (controller : UInt32) :
    VarAct α → CNetVarBase α → (Option (Update α) × Bool) × CNetVarBase α
  | .snapshot forced, v => (((v.takeVariableSnapshot forced).1, false), (v.takeVariableSnapshot forced).2)
  | .frame u, v => ((none, v.accepts controller u), v.readUpdate controller u)

/-- The tests of `ReadEntityUpdate`. -/
theorem ite_accepts {β : Type*} (controller : UInt32) (u : Update α) (v : CNetVarBase α) (x y : β) :
    (if controller = netControllerLocal ∧ u.forced = false then y
      else if v.checkSequence u.sequence then x else y) = if v.accepts controller u then x else y := by
  rw [accepts, Update.reaches]
  by_cases hc : controller = netControllerLocal <;> cases hf : u.forced <;>
    cases hs : v.checkSequence u.sequence <;> simp [hc]

theorem readUpdate_eq (controller : UInt32) (u : Update α) (v : CNetVarBase α) :
    v.readUpdate controller u =
      if v.accepts controller u then (v.setSequence u.sequence).setRaw u.data else v :=
  ite_accepts controller u v _ _

theorem sequenceID_readUpdate (controller : UInt32) (u : Update α) (v : CNetVarBase α) :
    (v.readUpdate controller u).sequenceID =
      if v.accepts controller u then u.sequence else v.sequenceID := by
  rw [readUpdate_eq, setRaw]
  split_ifs <;> rfl

/-- A variable that checks numbers takes those that are no lower than its own. -/
theorem accepts_checked {v : CNetVarBase α} (hc : v.sequenceCheck = true) (controller : UInt32)
    (u : Update α) :
    v.accepts controller u = true ↔ u.reaches controller = true ∧ v.sequenceID ≤ u.sequence := by
  simp [accepts, checkSequence, hc]

theorem le_sequenceID_readUpdate {v : CNetVarBase α} (hc : v.sequenceCheck = true) (controller : UInt32)
    (u : Update α) : v.sequenceID ≤ (v.readUpdate controller u).sequenceID := by
  rw [sequenceID_readUpdate]
  split_ifs with h
  · exact ((accepts_checked hc controller u).mp h).2
  · exact UInt32.le_refl _

end CNetVarBase

/-! ## The numbers of a server -/

/-- A variable and the updates it emitted. -/
structure Emitter (α : Type) where
  var : CNetVarBase α
  emitted : List (Update α) := []
  deriving DecidableEq, Repr

/-- An observer takes all of the updates, one after the other. -/
def AcceptsAll (w : CNetVarBase α) (us : List (Update α)) : Prop :=
  Along (readAs netControllerNone) (fun w u => w.accepts netControllerNone u = true) w us

namespace Emitter

def step (controller : UInt32) (s : Emitter α) (a : VarAct α) : Emitter α :=
  ⟨(s.var.act controller a).2, s.emitted ++ (s.var.act controller a).1.1.toList⟩

/-- The numbers are strictly increasing, and an observer that checks them and has seen no higher ones
takes all updates. -/
structure Grows (s : Emitter α) : Prop where
  increasing : s.emitted.Pairwise fun u w => u.sequence < w.sequence
  observed : ∀ w : CNetVarBase α, w.sequenceCheck = true →
    (∀ u ∈ s.emitted.head?, w.sequenceID ≤ u.sequence) → AcceptsAll w s.emitted

/-- The number of a later update is not the one after the highest. -/
def NoWrap (s : Emitter α) : VarAct α → Prop
  | .snapshot forced => forced = true ∨ s.var.changed = true → s.emitted ≠ [] → s.var.sequenceID + 1 ≠ 0
  | .frame _ => True

theorem acceptsAll_of_pairwise {us : List (Update α)} {w : CNetVarBase α} (hc : w.sequenceCheck = true)
    (hus : us.Pairwise fun u w => u.sequence < w.sequence)
    (hhead : ∀ u ∈ us.head?, w.sequenceID ≤ u.sequence) : AcceptsAll w us := by
  induction us generalizing w with
  | nil => trivial
  | cons u us ih =>
    obtain ⟨hu, hus⟩ := List.pairwise_cons.mp hus
    have haccepts : w.accepts netControllerNone u = true :=
      (CNetVarBase.accepts_checked hc _ u).mpr ⟨rfl, hhead u rfl⟩
    refine ⟨haccepts, ih ((CNetVarBase.readUpdate_config _ u w).2.trans hc) hus fun u' hu' => ?_⟩
    rw [readAs, CNetVarBase.sequenceID_readUpdate, if_pos haccepts]
    exact UInt32.le_of_lt (hu u' (List.mem_of_mem_head? hu'))

/-- **Of a law about the numbers alone the observers follow.** -/
theorem grows_of_pairwise {s : Emitter α}
    (h : s.emitted.Pairwise fun u w => u.sequence < w.sequence) : s.Grows :=
  ⟨h, fun _ hc hhead => acceptsAll_of_pairwise hc h hhead⟩

/-- The numbers so far grow up to that of the variable. -/
structure Counted (s : Emitter α) : Prop where
  checked : s.var.sequenceCheck = true
  increasing : s.emitted.Pairwise fun u w => u.sequence < w.sequence
  bound : ∀ u ∈ s.emitted, u.sequence ≤ s.var.sequenceID

variable {controller : UInt32} {s : Emitter α}

theorem lt_add_one {n : UInt32} (h : n + 1 ≠ 0) : n < n + 1 := by
  have hne : (n + 1).toNat ≠ 0 := fun e => h (UInt32.toNat_inj.mp e)
  have hlt := n.toNat_lt
  rw [UInt32.lt_iff_toNat_lt]
  rw [UInt32.toNat_add, UInt32.toNat_one] at hne ⊢
  omega

theorem counted_step {a : VarAct α} (h : s.Counted) (hok : s.NoWrap a) :
    (s.step controller a).Counted := by
  cases a with
  | snapshot forced =>
    by_cases hc : forced = true ∨ s.var.changed = true
    · rw [step, CNetVarBase.act, CNetVarBase.takeVariableSnapshot_some hc]
      -- the new number is above those before it, unless it is the first
      have hnext : ∀ u ∈ s.emitted, u.sequence < s.var.sequenceID + 1 := fun u hu =>
        UInt32.lt_of_le_of_lt (h.bound u hu) (lt_add_one (hok hc (List.ne_nil_of_mem hu)))
      refine ⟨h.checked, ?_, ?_⟩
      · refine List.pairwise_append.mpr ⟨h.increasing, List.pairwise_singleton _ _, ?_⟩
        intro u hu w hw
        rw [List.mem_singleton.mp hw]
        exact hnext u hu
      · intro u hu
        rcases List.mem_append.mp hu with hu | hu
        · exact UInt32.le_of_lt (hnext u hu)
        · rw [List.mem_singleton.mp hu]
          exact UInt32.le_refl _
    · rw [not_or, Bool.not_eq_true, Bool.not_eq_true] at hc
      rw [step, CNetVarBase.act, CNetVarBase.takeVariableSnapshot_none hc, Option.toList_none,
        List.append_nil]
      exact h
  | frame u =>
    rw [step, CNetVarBase.act, Option.toList_none, List.append_nil]
    exact ⟨(CNetVarBase.readUpdate_config controller u s.var).2.trans h.checked, h.increasing,
      fun w hw => UInt32.le_trans (h.bound w hw) (CNetVarBase.le_sequenceID_readUpdate h.checked _ u)⟩

/-- A number that wraps is not above the one before it. -/
theorem not_grows_of_wrap {a : VarAct α} (hbad : ¬ s.NoWrap a) : ¬ (s.step controller a).Grows := by
  cases a with
  | snapshot forced =>
    obtain ⟨hc, hne, hwrap⟩ : (forced = true ∨ s.var.changed = true) ∧ s.emitted ≠ [] ∧
        s.var.sequenceID + 1 = 0 := by
      simpa [NoWrap] using hbad
    obtain ⟨u, hu⟩ := List.exists_mem_of_ne_nil _ hne
    intro h
    have hincreasing := h.increasing
    rw [step, CNetVarBase.act, CNetVarBase.takeVariableSnapshot_some hc] at hincreasing
    have hlt := (List.pairwise_append.mp hincreasing).2.2 u hu _ List.mem_cons_self
    rw [hwrap, UInt32.lt_iff_toNat_lt] at hlt
    exact Nat.not_lt_zero _ hlt
  | frame u => exact absurd trivial hbad

/-- **The numbers a server emits grow exactly as long as the counter does not wrap**, whatever numbers
the owner sends. -/
theorem grows_iff (controller : UInt32) {v : CNetVarBase α} (hc : v.sequenceCheck = true)
    (acts : List (VarAct α)) :
    (∀ n, (run (step controller) { var := v } (acts.take n)).Grows) ↔
      Along (step controller) NoWrap { var := v } acts :=
  forall_run_iff_along (I := Counted) (fun _ h => grows_of_pairwise h.increasing)
    (fun _ _ h hok => counted_step h hok) (fun _ _ _ hbad => not_grows_of_wrap hbad)
    ⟨hc, List.Pairwise.nil, by simp⟩ acts

/-- The owner's only update carries the highest number, between two snapshots. -/
def hostileRun : List (VarAct UInt8) :=
  [.snapshot true, .frame ⟨9, 0xFFFFFFFF, true⟩, .snapshot true]

def checkedVar : CNetVarBase UInt8 where
  data := 0
  sequenceCheck := true

theorem grows_iff_hostile : checkedVar.sequenceCheck = true ∧
    ((∀ n, (run (step netControllerLocal) { var := checkedVar } (hostileRun.take n)).Grows) ↔
      Along (step netControllerLocal) NoWrap { var := checkedVar } hostileRun) :=
  ⟨rfl, grows_iff netControllerLocal rfl hostileRun⟩

/-- The numbers of that run are `1` and `0`. -/
theorem not_grows_hostile : ¬ ∀ (controller : UInt32) (v : CNetVarBase UInt8), v.sequenceCheck = true →
    ∀ acts : List (VarAct UInt8), acts.length < 2 ^ 32 →
      ∀ n, (run (step controller) { var := v } (acts.take n)).Grows := by
  intro h
  have hgrows := (h netControllerLocal checkedVar rfl hostileRun (by decide) 3).increasing
  exact absurd hgrows (by decide)

end Emitter

/-! ## Locked variables -/

namespace CNetVarBase

def lock (v : CNetVarBase α) : CNetVarBase α := { v with locked := true }

def unlock (v : CNetVarBase α) : CNetVarBase α := { v with locked := false }

/-- All of a variable but its number. -/
def visible (v : CNetVarBase α) : CNetVarBase α := { v with sequenceID := 0 }

/-- What frames and snapshots show of a variable. -/
def trace (controller : UInt32) :
    CNetVarBase α → List (VarAct α) → List ((Option (Update α) × Bool) × CNetVarBase α)
  | _, [] => []
  | v, a :: acts => ((v.act controller a).1, (v.act controller a).2.visible) ::
      trace controller (v.act controller a).2 acts

def readAll (controller : UInt32) (us : List (Update α)) (v : CNetVarBase α) : CNetVarBase α :=
  us.foldl (readAs controller) v

/-- **The law of `Lock`.** After `Unlock` nothing shows that frames came while the variable was locked:
not the variable, and nothing that frames and snapshots do to it later. -/
structure ShutsOut (controller : UInt32) (us : List (Update α)) (v : CNetVarBase α) : Prop where
  now : (v.lock.readAll controller us).unlock.visible = v.lock.unlock.visible
  later : ∀ acts, trace controller (v.lock.readAll controller us).unlock acts =
    trace controller v.lock.unlock acts

/-- Of the frames that are not filtered none has a number above that of a variable that checks them; the
last of them has the number of a variable that does not. -/
def KeepsNumber (controller : UInt32) (us : List (Update α)) (v : CNetVarBase α) : Prop :=
  if v.sequenceCheck then ∀ u ∈ us, u.reaches controller = true → u.sequence ≤ v.sequenceID
  else ∀ u ∈ (us.filter (Update.reaches controller)).getLast?, u.sequence = v.sequenceID

variable {controller : UInt32} {v : CNetVarBase α}

/-- A frame for a locked variable sets the number at most. -/
theorem readUpdate_locked (hl : v.locked = true) (controller : UInt32) (u : Update α) :
    v.readUpdate controller u =
      { v with sequenceID := (v.readUpdate controller u).sequenceID } := by
  rw [readUpdate_eq]
  split_ifs with h
  · simp [setRaw, setSequence, hl]
  · rfl

theorem readAll_locked (hl : v.locked = true) (controller : UInt32) (us : List (Update α)) :
    v.readAll controller us = { v with sequenceID := (v.readAll controller us).sequenceID } := by
  induction us generalizing v with
  | nil => rfl
  | cons u us ih =>
    have hread := readUpdate_locked hl controller u
    have hrest := ih (v := v.readUpdate controller u) (by rw [hread]; exact hl)
    calc v.readAll controller (u :: us)
        = { v.readUpdate controller u with
            sequenceID := (v.readAll controller (u :: us)).sequenceID } := hrest
      _ = { v with sequenceID := (v.readAll controller (u :: us)).sequenceID } := by rw [hread]

theorem le_sequenceID_readAll (hc : v.sequenceCheck = true) (controller : UInt32)
    (us : List (Update α)) :
    v.sequenceID ≤ (v.readAll controller us).sequenceID := by
  induction us generalizing v with
  | nil => exact UInt32.le_refl _
  | cons u us ih =>
    exact UInt32.le_trans (le_sequenceID_readUpdate hc controller u)
      (ih ((readUpdate_config controller u v).2.trans hc))

/-- **When the number of a locked variable survives.** -/
theorem sequenceID_readAll_iff (hl : v.locked = true) (us : List (Update α)) :
    (v.readAll controller us).sequenceID = v.sequenceID ↔ v.KeepsNumber controller us := by
  rw [KeepsNumber]
  by_cases hc : v.sequenceCheck = true
  · rw [if_pos hc]
    induction us with
    | nil => simp [readAll]
    | cons u us ih =>
      rw [List.forall_mem_cons]
      by_cases hu : u.reaches controller = true → u.sequence ≤ v.sequenceID
      · -- a frame that is taken has the variable's own number
        have hsame : (v.readUpdate controller u).sequenceID = v.sequenceID := by
          rw [sequenceID_readUpdate]
          split_ifs with h
          · obtain ⟨hreaches, hle⟩ := (accepts_checked hc controller u).mp h
            exact UInt32.le_antisymm (hu hreaches) hle
          · rfl
        have hread : v.readUpdate controller u = v := by
          rw [readUpdate_locked hl, hsame]
        rw [and_iff_right hu, ← ih]
        show (readAll controller us (v.readUpdate controller u)).sequenceID = _ ↔ _
        rw [hread]
      · -- a higher number stays
        obtain ⟨hreaches, hgt⟩ := Classical.not_imp.mp hu
        have hlt := UInt32.not_le.mp hgt
        have haccepts := (accepts_checked hc controller u).mpr ⟨hreaches, UInt32.le_of_lt hlt⟩
        have hle := le_sequenceID_readAll ((readUpdate_config controller u v).2.trans hc) controller us
        rw [sequenceID_readUpdate, if_pos haccepts] at hle
        refine iff_of_false (fun h => ?_) fun h => hu h.1
        have hend : (readAll controller us (v.readUpdate controller u)).sequenceID = v.sequenceID := h
        rw [hend] at hle
        exact UInt32.lt_irrefl _ (UInt32.lt_of_lt_of_le hlt hle)
  · rw [if_neg hc]
    have hcheck : ∀ (us : List (Update α)) (n : UInt32),
        (v.readAll controller us).checkSequence n = true := by
      intro us n
      rw [readAll_locked hl]
      simp [checkSequence, hc]
    induction us using List.reverseRecOn with
    | nil => simp [readAll]
    | append_singleton us u ih =>
      have hlast : v.readAll controller (us ++ [u]) =
          (v.readAll controller us).readUpdate controller u := List.foldl_concat ..
      rw [hlast, sequenceID_readUpdate, accepts, hcheck, Bool.and_true, List.filter_append]
      by_cases hu : u.reaches controller = true
      · simp [hu]
      · simpa [hu] using ih

/-- **A lock shuts the owner out exactly when its frames leave the number alone.** -/
theorem shutsOut_iff (controller : UInt32) (us : List (Update α)) (v : CNetVarBase α) :
    v.ShutsOut controller us ↔ v.KeepsNumber controller us := by
  have hlocked := readAll_locked (v := v.lock) rfl controller us
  have hkeeps : v.lock.KeepsNumber controller us ↔ v.KeepsNumber controller us := Iff.rfl
  rw [← hkeeps, ← sequenceID_readAll_iff (v := v.lock) rfl]
  constructor
  · intro h
    -- a forced snapshot shows the number
    have hnumber := congrArg (fun t => t.head?.bind fun o => o.1.1.map Update.sequence)
      (h.later [.snapshot true])
    simpa [trace, act, takeVariableSnapshot, unlock] using hnumber
  · intro h
    have hsame : v.lock.readAll controller us = v.lock := by rw [hlocked, h]
    exact ⟨by rw [hsame], fun acts => by rw [hsame]⟩

/-- An owner numbers a frame for a locked variable. -/
theorem not_shutsOut_numbered : ¬ ∀ (controller : UInt32) (us : List (Update UInt8))
    (v : CNetVarBase UInt8), v.ShutsOut controller us := by
  intro h
  have hlater := (h netControllerLocal [⟨9, 5, true⟩] { data := 0 }).later [.snapshot true]
  exact absurd hlater (by decide)

end CNetVarBase

end Nettik
