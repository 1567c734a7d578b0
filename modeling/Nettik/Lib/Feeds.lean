import Nettik.Lib.Simulation
import Mathlib.Order.Monotone.Basic

/-!
# A log and its readers

A source appends to a log, and every reader follows the log at its own pace.

* `Feed`, `step`: the source is written to, it publishes, and a reader reads on;
* **`cursor_mono`**: no reader goes back.
-/

namespace Links

variable {σ U W : Type*}

/-- What is published so far, and how much of it each reader has read. -/
structure Feed (σ U : Type*) where
  source : σ
  log : List U := []
  cursors : List ℕ

inductive FeedAct (W : Type*) where
  | write (w : W)
  | publish
  | read (k n : ℕ)

namespace Feed

variable (write : W → σ → σ) (emit : σ → List U × σ)

def step (s : Feed σ U) : FeedAct W → Feed σ U
  | .write w => { s with source := write w s.source }
  | .publish => { s with source := (emit s.source).2, log := s.log ++ (emit s.source).1 }
  | .read k n => { s with cursors := s.cursors.modify k (· + n) }

def cursor (k : ℕ) (s : Feed σ U) : ℕ := s.cursors.getD k 0

theorem cursor_eq {k n : ℕ} {s : Feed σ U} (h : s.cursors[k]? = some n) : s.cursor k = n := by
  rw [cursor, List.getD_eq_getElem?_getD, h]
  rfl

variable {write emit}

theorem cursor_le_step (k : ℕ) (s : Feed σ U) (a : FeedAct W) :
    s.cursor k ≤ (s.step write emit a).cursor k := by
  cases a with
  | write w => exact le_rfl
  | publish => exact le_rfl
  | read j n =>
    rw [step, cursor, cursor, List.getD_eq_getElem?_getD, List.getD_eq_getElem?_getD]
    dsimp only
    rw [List.getElem?_modify]
    cases s.cursors[k]? with
    | none => exact le_rfl
    | some i =>
      split_ifs
      · exact Nat.le_add_right i n
      · exact le_rfl

theorem cursor_le_run (k : ℕ) (s : Feed σ U) (acts : List (FeedAct W)) :
    s.cursor k ≤ (run (step write emit) s acts).cursor k :=
  run_inv (I := fun t : Feed σ U => s.cursor k ≤ t.cursor k)
    (fun t a h _ => h.trans (cursor_le_step k t a)) le_rfl (along_of_forall (fun _ _ => trivial) s)

/-- **No reader goes back.** -/
theorem cursor_mono {τ A : Type*} {step' : τ → A → τ} {view : τ → A → List (FeedAct W)} (k : ℕ) (t : τ)
    (s : Feed σ U) (acts : List A) :
    Monotone fun m => (run (step write emit) s (shown step' view t (acts.take m))).cursor k := by
  refine monotone_nat_of_le_succ fun m => ?_
  rw [List.take_add_one, shown_append, run_append]
  exact cursor_le_run k _ _

end Feed

end Links
