import Nettik.Sync.Exchange

/-!
# Agreement of server and owner

Both hold the object as `LOCAL` and take forced updates only. A forced update overwrites what the
other side wrote meanwhile, so two of them that cross swap the values.

* `foldl_forced`, `foldl_unforced`: what the updates on their way do to a copy;
* `InStep`: the invariant, symmetric in the two sides; `InStep.write`, `InStep.tick`,
  `InStep.deliver`: every action of one side keeps it;
* **`agreement`**: without crossing, both sides agree whenever nothing is left to do.
-/

namespace Nettik

open Links CNetVarBase

variable {α : Type}

/-! ## Updates on their way to a local copy -/

/-- A forced update is on its way. -/
def ForcedIn (us : List (Update α)) : Prop := ∃ u ∈ us, u.forced = true

instance (us : List (Update α)) : Decidable (ForcedIn us) := by
  unfold ForcedIn
  infer_instance

@[simp] theorem forcedIn_nil : ¬ ForcedIn ([] : List (Update α)) := by
  simp [ForcedIn]

@[simp] theorem forcedIn_cons (u : Update α) (us : List (Update α)) :
    ForcedIn (u :: us) ↔ u.forced = true ∨ ForcedIn us := by
  simp [ForcedIn]

@[simp] theorem forcedIn_append (us us' : List (Update α)) :
    ForcedIn (us ++ us') ↔ ForcedIn us ∨ ForcedIn us' := by
  simp only [ForcedIn, List.mem_append, or_and_right, exists_or]

/-- The copy of one side once it has processed what is on its way. -/
def settledLocal (x : Copies α) : CNetVarBase α := x.settled (readAs netControllerLocal)

theorem plain_foldl {v : CNetVarBase α} (h : Plain v) (controller : UInt32) (us : List (Update α)) :
    Plain (us.foldl (readAs controller) v) := by
  induction us generalizing v with
  | nil => exact h
  | cons u us ih => exact ih (h.read controller u)

theorem plain_settled {x : Copies α} (h : Plain x.state) (controller : UInt32) :
    Plain (x.settled (readAs controller)) :=
  plain_foldl h controller x.pending

theorem foldl_unforced {us : List (Update α)} (h : ¬ ForcedIn us) (v : CNetVarBase α) :
    us.foldl (readAs netControllerLocal) v = v := by
  induction us with
  | nil => rfl
  | cons u us ih =>
    rw [forcedIn_cons, not_or, Bool.not_eq_true] at h
    rw [List.foldl_cons, readAs_unforced v h.1]
    exact ih h.2

/-- **Behind a forced update the value a copy has now does not matter.** -/
theorem foldl_forced {us : List (Update α)} (h : ForcedIn us) {v v' : CNetVarBase α} (hv : Plain v)
    (hv' : Plain v') : (us.foldl (readAs netControllerLocal) v).data =
      (us.foldl (readAs netControllerLocal) v').data := by
  induction us generalizing v v' with
  | nil => exact absurd h forcedIn_nil
  | cons u us ih =>
    rw [List.foldl_cons, List.foldl_cons]
    by_cases hus : ForcedIn us
    · exact ih hus (hv.read _ u) (hv'.read _ u)
    · have hu : u.forced = true := ((forcedIn_cons u us).mp h).resolve_right hus
      rw [foldl_unforced hus, foldl_unforced hus, hv.readAs (Or.inr hu), hv'.readAs (Or.inr hu)]

/-! ## The two sides -/

/-- A copy that refuses nothing and emits whenever it has a forced change. -/
structure Ready (v : CNetVarBase α) : Prop where
  plain : Plain v
  changed : v.changeForced = true → v.changed = true

theorem Ready.wrote {v v' : CNetVarBase α} (h : Ready v) (hw : Wrote v v') : Ready v' := by
  refine ⟨h.plain.wrote hw, ?_⟩
  rcases hw.cases with rfl | ⟨hc, -⟩
  · exact h.changed
  · exact fun _ => hc

theorem Ready.snapshot {v : CNetVarBase α} (h : Ready v) :
    Ready (v.takeVariableSnapshot false).2 := by
  refine ⟨h.plain.snapshot false, ?_⟩
  by_cases hc : v.changed = true
  · rw [takeVariableSnapshot_some (Or.inr hc)]
    exact fun h => absurd h Bool.false_ne_true
  · rw [takeVariableSnapshot_none ⟨rfl, by simpa using hc⟩]
    exact h.changed

theorem Ready.read {v : CNetVarBase α} (h : Ready v) (u : Update α) :
    Ready (readAs netControllerLocal v u) := by
  refine ⟨h.plain.read _ u, ?_⟩
  rw [changeForced_readAs]
  intro hf
  by_cases hu : u.forced = true
  · rw [h.plain.readAs (Or.inr hu)]
  · rw [readAs_unforced v (by simpa using hu)]
    exact h.changed hf

/-- Forced updates travel in one direction at most. Those towards a side end in the value of the
other, unless the other has a newer value to send. -/
structure InStep (x y : Copies α) : Prop where
  readyLeft : Ready x.state
  readyRight : Ready y.state
  apart : ¬ (ForcedIn x.pending ∧ ForcedIn y.pending)
  toLeft : ForcedIn x.pending → y.state.changeForced = true ∨ (settledLocal x).data = y.state.data
  toRight : ForcedIn y.pending → x.state.changeForced = true ∨ (settledLocal y).data = x.state.data
  idle : ¬ ForcedIn x.pending → ¬ ForcedIn y.pending → x.state.changeForced = true ∨
    y.state.changeForced = true ∨ x.state.data = y.state.data

namespace InStep

variable {x y : Copies α}

theorem symm (h : InStep x y) : InStep y x where
  readyLeft := h.readyRight
  readyRight := h.readyLeft
  apart hf := h.apart ⟨hf.2, hf.1⟩
  toLeft := h.toRight
  toRight := h.toLeft
  idle hy hx := by
    rcases h.idle hx hy with hc | hc | he
    · exact Or.inr (Or.inl hc)
    · exact Or.inl hc
    · exact Or.inr (Or.inr he.symm)

/-- One side writes. -/
theorem write (h : InStep x y) {f : CNetVarBase α → CNetVarBase α} (hf : Wrote x.state (f x.state)) :
    InStep (x.update f) y := by
  rcases hf.cases with he | ⟨-, hforced⟩
  · have hx : x.update f = x := by
      rw [Inbox.update, he]
    rwa [hx]
  · refine ⟨h.readyLeft.wrote hf, h.readyRight, h.apart, ?_, fun _ => Or.inl hforced,
      fun _ _ => Or.inl hforced⟩
    intro (hx : ForcedIn x.pending)
    rw [settledLocal, Inbox.settled, Inbox.update_pending, Inbox.update_state,
      foldl_forced hx (h.readyLeft.wrote hf).plain h.readyLeft.plain]
    exact h.toLeft hx

/-- **One side ticks**, and does not cross a forced update on its way to it. -/
theorem tick (h : InStep x y)
    (hcross : x.state.changed = true → x.state.changeForced = true → ¬ ForcedIn x.pending) :
    InStep (x.update fun _ => (x.state.takeVariableSnapshot false).2)
      (y.post (x.state.takeVariableSnapshot false).1.toList) := by
  by_cases hc : x.state.changed = true
  · have hready := h.readyLeft.snapshot
    rw [takeVariableSnapshot_some (Or.inr hc), Bool.or_false] at hready ⊢
    rw [Option.toList_some]
    set u : Update α := ⟨x.state.data, x.state.sequenceID + 1, x.state.changeForced⟩
    have hsettled : settledLocal (y.post [u]) = readAs netControllerLocal (settledLocal y) u :=
      Inbox.settled_post _ [u] y
    have hy : ForcedIn (y.post [u]).pending ↔ ForcedIn y.pending ∨ x.state.changeForced = true := by
      simp [u]
    by_cases hf : x.state.changeForced = true
    · -- the forced update carries the value of the sender
      have hx : ¬ ForcedIn x.pending := hcross hc hf
      have hplain : Plain (settledLocal y) := plain_settled h.readyRight.plain _
      refine ⟨hready, h.readyRight, fun hboth => hx hboth.1, fun hx' => absurd hx' hx, ?_, ?_⟩
      · intro _
        rw [hsettled, hplain.readAs (Or.inr hf)]
        exact Or.inr rfl
      · intro _ hy'
        exact absurd (hy.mpr (Or.inr hf)) hy'
    · -- an unforced update is skipped
      have hu : u.forced = false := by simpa using hf
      have hy' : ForcedIn (y.post [u]).pending ↔ ForcedIn y.pending := by
        rw [hy, or_iff_left hf]
      refine ⟨hready, h.readyRight, ?_, ?_, ?_, ?_⟩
      · rw [hy']
        exact h.apart
      · intro hx
        have hsettledx : (settledLocal (x.update fun _ => { x.state with
            sequenceID := x.state.sequenceID + 1, changed := false, changeForced := false })).data =
            (settledLocal x).data := foldl_forced hx hready.plain h.readyLeft.plain
        rw [hsettledx]
        exact h.toLeft hx
      · rw [hy', hsettled, readAs_unforced _ hu]
        intro hyf
        exact Or.inr ((h.toRight hyf).resolve_left hf)
      · rw [hy']
        intro hx hyf
        exact Or.inr ((h.idle hx hyf).resolve_left hf)
  · have hnone := takeVariableSnapshot_none (v := x.state) ⟨rfl, by simpa using hc⟩
    rw [hnone]
    have hx : (x.update fun _ => x.state) = x := rfl
    rwa [hx, Option.toList_none, Inbox.post_nil]

/-- One side processes the next update. -/
theorem deliver (h : InStep x y) : InStep (x.deliver (readAs netControllerLocal)) y := by
  cases hp : x.pending with
  | nil => rwa [Inbox.deliver_nil _ hp]
  | cons u us =>
    have hsettled : settledLocal (x.deliver (readAs netControllerLocal)) = settledLocal x :=
      Inbox.settled_deliver _ x
    have hx : ForcedIn x.pending ↔ u.forced = true ∨ ForcedIn us := by
      rw [hp, forcedIn_cons]
    rw [Inbox.deliver_cons _ hp] at hsettled ⊢
    have hchange : (readAs netControllerLocal x.state u).changeForced = x.state.changeForced :=
      changeForced_readAs _ _ _
    by_cases hu : u.forced = true
    · have hy : ¬ ForcedIn y.pending := fun hy => h.apart ⟨hx.mpr (Or.inl hu), hy⟩
      have hto := h.toLeft (hx.mpr (Or.inl hu))
      rw [← hsettled] at hto
      refine ⟨h.readyLeft.read u, h.readyRight, fun hboth => hy hboth.2, fun _ => hto,
        fun hy' => absurd hy' hy, fun hus _ => ?_⟩
      -- the last forced update arrived
      rw [settledLocal, Inbox.settled, foldl_unforced hus] at hto
      exact Or.inr hto
    · have hsame : readAs netControllerLocal x.state u = x.state :=
        readAs_unforced _ (by simpa using hu)
      rw [or_iff_right hu] at hx
      rw [hsame] at hsettled ⊢
      refine ⟨h.readyLeft, h.readyRight, ?_, ?_, h.toRight, ?_⟩
      · rw [← hx]
        exact h.apart
      · rw [hsettled, ← hx]
        exact h.toLeft
      · rw [← hx]
        exact h.idle

end InStep

/-! ## Runs -/

namespace Exchange

/-- Quiet and equal on both sides, with nothing to send. -/
structure AtRest (s : Exchange α) : Prop where
  quiet : s.Quiet
  serverPlain : Plain s.server.state
  ownerPlain : Plain s.owner.state
  serverClean : s.server.state.changed = false ∧ s.server.state.changeForced = false
  ownerClean : s.owner.state.changed = false ∧ s.owner.state.changeForced = false
  same : s.server.state.data = s.owner.state.data

/-- No tick emits a forced update while one of the other side is on its way. -/
def NoCrossing (s : Exchange α) : Act α → Prop
  | .tick .server => s.server.state.changed = true → s.server.state.changeForced = true →
      ¬ ForcedIn s.server.pending
  | .tick .owner => s.owner.state.changed = true → s.owner.state.changeForced = true →
      ¬ ForcedIn s.owner.pending
  | _ => True

instance : ∀ (s : Exchange α) (a : Act α), Decidable (s.NoCrossing a)
  | _, .tick .server => inferInstanceAs (Decidable (_ → _ → ¬ _))
  | _, .tick .owner => inferInstanceAs (Decidable (_ → _ → ¬ _))
  | _, .tick (.observer _) => isTrue trivial
  | _, .set _ _ _ => isTrue trivial
  | _, .invalidate _ => isTrue trivial
  | _, .deliver _ => isTrue trivial

theorem AtRest.inStep {s : Exchange α} (h : s.AtRest) : InStep s.server s.owner := by
  obtain ⟨hs, ho, -⟩ := h.quiet
  have hready : ∀ v : CNetVarBase α, Plain v → v.changeForced = false → Ready v :=
    fun v hv hf => ⟨hv, fun e => absurd (hf.symm.trans e) Bool.false_ne_true⟩
  refine ⟨hready _ h.serverPlain h.serverClean.2, hready _ h.ownerPlain h.ownerClean.2, ?_, ?_, ?_,
    fun _ _ => Or.inr (Or.inr h.same)⟩
  · rw [hs]
    exact fun hf => forcedIn_nil hf.1
  · rw [hs]
    exact fun hf => absurd hf forcedIn_nil
  · rw [ho]
    exact fun hf => absurd hf forcedIn_nil

/-- **Every action keeps the sides in step.** -/
theorem inStep_step [BEq α] (s : Exchange α) (a : Act α) (h : InStep s.server s.owner)
    (hok : s.NoCrossing a) : InStep (s.step a).server (s.step a).owner := by
  cases a with
  | set p active data =>
    cases p with
    | server => exact h.write (wrote_set active data _)
    | owner => exact (h.symm.write (wrote_set active data _)).symm
    | observer k => exact h
  | invalidate p =>
    cases p with
    | server => exact h.write (wrote_invalidate _)
    | owner => exact (h.symm.write (wrote_invalidate _)).symm
    | observer k => exact h
  | tick p =>
    cases p with
    | server => exact h.tick hok
    | owner => exact (h.symm.tick hok).symm
    | observer k => exact h
  | deliver p =>
    cases p with
    | server => exact h.deliver
    | owner => exact h.symm.deliver.symm
    | observer k => exact h

/-- **Agreement of server and owner.** -/
theorem agreement [BEq α] {s : Exchange α} (hs : s.AtRest) {acts : List (Act α)}
    (hok : Along step NoCrossing s acts) (hquiet : (run step s acts).Quiet)
    (hserver : (run step s acts).server.state.changed = false)
    (howner : (run step s acts).owner.state.changed = false) :
    (run step s acts).server.state.data = (run step s acts).owner.state.data := by
  have h : InStep (run step s acts).server (run step s acts).owner :=
    run_inv (I := fun s : Exchange α => InStep s.server s.owner) inStep_step hs.inStep hok
  have hclean : ∀ v : CNetVarBase α, Ready v → v.changed = false → ¬ v.changeForced = true :=
    fun v hv hc hf => absurd (hc.symm.trans (hv.changed hf)) Bool.false_ne_true
  obtain ⟨hps, hpo, -⟩ := hquiet
  have hidle := h.idle (by rw [hps]; exact forcedIn_nil) (by rw [hpo]; exact forcedIn_nil)
  exact (hidle.resolve_left (hclean _ h.readyLeft hserver)).resolve_left
    (hclean _ h.readyRight howner)

/-- A byte, `0` on both sides. -/
def level : Exchange UInt8 where
  server := { state := { data := 0, changed := false } }
  owner := { state := { data := 0, changed := false } }

theorem level_atRest : level.AtRest where
  quiet := ⟨rfl, rfl, by simp [level]⟩
  serverPlain := ⟨rfl, rfl⟩
  ownerPlain := ⟨rfl, rfl⟩
  serverClean := ⟨rfl, rfl⟩
  ownerClean := ⟨rfl, rfl⟩
  same := rfl

/-- The server writes; the owner answers with an update the server skips. -/
def oneWrite : List (Act UInt8) :=
  [.set .server true 1, .tick .server, .deliver .owner, .tick .owner, .deliver .server]

theorem agreement_oneWrite : (run step level oneWrite).server.state.data =
    (run step level oneWrite).owner.state.data := by
  have hok : Along step NoCrossing level oneWrite := by decide
  exact agreement level_atRest hok (by decide) (by decide) (by decide)

/-- Both sides write before either hears of the other. -/
def crossedWrites : List (Act UInt8) :=
  [.set .server true 1, .set .owner true 2, .tick .server, .tick .owner, .deliver .server,
    .deliver .owner, .tick .server, .tick .owner, .deliver .server, .deliver .owner]

theorem crossedWrites_disagree : level.AtRest ∧ (run step level crossedWrites).Quiet ∧
    (run step level crossedWrites).server.state.changed = false ∧
    (run step level crossedWrites).owner.state.changed = false ∧
    (run step level crossedWrites).server.state.data ≠
      (run step level crossedWrites).owner.state.data :=
  ⟨level_atRest, by decide⟩

end Exchange

end Nettik
