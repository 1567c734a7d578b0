import Mathlib.Algebra.BigOperators.Group.List.Basic
import Mathlib.Algebra.GroupWithZero.Nat
import Mathlib.Tactic.Common

/-!
# Runs and queues

* `run`: a state machine along a list of actions; `Along` what holds before every step of it;
  `run_inv`, `run_potential` and `run_peak` carry an invariant and a bound from the steps to the runs,
  `forall_run_iff_along` an exact condition;
* `Inbox`: a party and the messages on their way to it, in order; `settled` is what the party
  becomes once it has processed them, which a delivery does not change.
-/

namespace Links

variable {σ A M : Type*}

/-! ## Runs -/

def run (step : σ → A → σ) (s : σ) (acts : List A) : σ := acts.foldl step s

/-- Every action meets `ok` in the state it is taken from. -/
def Along (step : σ → A → σ) (ok : σ → A → Prop) : σ → List A → Prop
  | _, [] => True
  | s, a :: acts => ok s a ∧ Along step ok (step s a) acts

variable {step : σ → A → σ} {ok : σ → A → Prop}

instance [∀ s a, Decidable (ok s a)] : ∀ s acts, Decidable (Along step ok s acts)
  | _, [] => isTrue trivial
  | s, a :: acts =>
    have := instDecidableAlong (step s a) acts
    inferInstanceAs (Decidable (ok s a ∧ _))

/-- **What every step preserves, a run preserves.** -/
theorem run_inv {I : σ → Prop} (hstep : ∀ s a, I s → ok s a → I (step s a)) {s : σ} (hs : I s)
    {acts : List A} (hok : Along step ok s acts) : I (run step s acts) := by
  induction acts generalizing s with
  | nil => exact hs
  | cons a acts ih => exact ih (hstep s a hs hok.1) hok.2

/-- **Where runs go wrong.** A law holds at every moment of a run exactly when every action of it meets
`ok`, if such actions keep an invariant that implies the law, and any other action breaks the law. -/
theorem forall_run_iff_along {I P : σ → Prop} (hI : ∀ s, I s → P s)
    (hstep : ∀ s a, I s → ok s a → I (step s a)) (hbreak : ∀ s a, I s → ¬ ok s a → ¬ P (step s a))
    {s : σ} (hs : I s) (acts : List A) :
    (∀ n, P (run step s (acts.take n))) ↔ Along step ok s acts := by
  induction acts generalizing s with
  | nil => exact iff_of_true (fun n => by rw [List.take_nil]; exact hI s hs) trivial
  | cons a acts ih =>
    constructor
    · intro h
      have ha : ok s a := not_not.mp fun hbad => hbreak s a hs hbad (h 1)
      exact ⟨ha, (ih (hstep s a hs ha)).mp fun n => h (n + 1)⟩
    · rintro ⟨ha, hrest⟩ n
      cases n with
      | zero => exact hI s hs
      | succ n => exact (ih (hstep s a hs ha)).mpr hrest n

/-- A condition on the actions alone. -/
theorem along_of_forall {p : A → Prop} {acts : List A} (h : ∀ a ∈ acts, p a) (s : σ) :
    Along step (fun _ a => p a) s acts := by
  induction acts generalizing s with
  | nil => trivial
  | cons a acts ih =>
    exact ⟨h a List.mem_cons_self, ih (fun b hb => h b (List.mem_cons_of_mem _ hb)) _⟩

theorem Along.and {ok' : σ → A → Prop} {s : σ} {acts : List A} (h : Along step ok s acts)
    (h' : Along step ok' s acts) : Along step (fun s a => ok s a ∧ ok' s a) s acts := by
  induction acts generalizing s with
  | nil => trivial
  | cons a acts ih => exact ⟨⟨h.1, h'.1⟩, ih h.2 h'.2⟩

/-- **A potential that no step raises by more than its cost.** -/
theorem run_potential {pot : σ → ℕ} {cost : A → ℕ} (hstep : ∀ s a, pot (step s a) ≤ pot s + cost a)
    (s : σ) (acts : List A) : pot (run step s acts) ≤ pot s + (acts.map cost).sum := by
  induction acts generalizing s with
  | nil => exact Nat.le_add_right _ _
  | cons a acts ih =>
    calc pot (run step (step s a) acts)
        ≤ pot (step s a) + (acts.map cost).sum := ih _
      _ ≤ pot s + cost a + (acts.map cost).sum := Nat.add_le_add_right (hstep s a) _
      _ = pot s + ((a :: acts).map cost).sum := by
        rw [List.map_cons, List.sum_cons, Nat.add_assoc]

/-- The largest size of a state so far. -/
def peak (step : σ → A → σ) (size : σ → ℕ) : σ → List A → ℕ
  | s, [] => size s
  | s, a :: acts => max (size s) (peak step size (step s a) acts)

theorem size_le_peak (size : σ → ℕ) (s : σ) (acts : List A) : size s ≤ peak step size s acts := by
  cases acts with
  | nil => exact Nat.le_refl _
  | cons a acts => exact Nat.le_max_left _ _

/-- **An invariant that mentions the largest size so far.** -/
theorem run_peak {size : σ → ℕ} {I : ℕ → σ → Prop}
    (hstep : ∀ n s a, I n s → ok s a → I (max n (size (step s a))) (step s a)) {n : ℕ} {s : σ}
    (hs : I n s) (hn : size s ≤ n) {acts : List A} (hok : Along step ok s acts) :
    I (max n (peak step size s acts)) (run step s acts) := by
  induction acts generalizing n s with
  | nil => rwa [peak, Nat.max_eq_left hn]
  | cons a acts ih =>
    have hrest := ih (hstep n s a hs hok.1) (Nat.le_max_right _ _) hok.2
    have hpeak : max n (peak step size s (a :: acts)) =
        max (max n (size (step s a))) (peak step size (step s a) acts) := by
      have hle : size (step s a) ≤ peak step size (step s a) acts := size_le_peak size _ acts
      rw [peak]
      omega
    rwa [hpeak]

/-! ## Queues -/

/-- A party and the messages on their way to it. -/
structure Inbox (σ M : Type*) where
  state : σ
  pending : List M := []
  deriving DecidableEq, Repr

namespace Inbox

def post (ms : List M) (x : Inbox σ M) : Inbox σ M := { x with pending := x.pending ++ ms }

/-- The party does something on its own. -/
def update (f : σ → σ) (x : Inbox σ M) : Inbox σ M := { x with state := f x.state }

variable (act : σ → M → σ)

/-- Process the next message, if there is one. -/
def deliver (x : Inbox σ M) : Inbox σ M :=
  match x.pending with
  | [] => x
  | m :: ms => ⟨act x.state m, ms⟩

def settled (x : Inbox σ M) : σ := x.pending.foldl act x.state

@[simp] theorem post_state (ms : List M) (x : Inbox σ M) : (x.post ms).state = x.state := rfl

@[simp] theorem post_pending (ms : List M) (x : Inbox σ M) :
    (x.post ms).pending = x.pending ++ ms := rfl

@[simp] theorem post_nil (x : Inbox σ M) : x.post [] = x := by
  simp [post]

@[simp] theorem update_state (f : σ → σ) (x : Inbox σ M) : (x.update f).state = f x.state := rfl

@[simp] theorem update_pending (f : σ → σ) (x : Inbox σ M) : (x.update f).pending = x.pending := rfl

theorem deliver_nil {x : Inbox σ M} (h : x.pending = []) : x.deliver act = x := by
  rw [deliver, h]

theorem deliver_cons {x : Inbox σ M} {m : M} {ms : List M} (h : x.pending = m :: ms) :
    x.deliver act = ⟨act x.state m, ms⟩ := by
  rw [deliver, h]

/-- A delivery leaves the party as it is or processes the next message. -/
theorem deliver_cases {C : Inbox σ M → Prop} {x : Inbox σ M} (hnil : C x)
    (hcons : ∀ m ms, x.pending = m :: ms → C ⟨act x.state m, ms⟩) : C (x.deliver act) := by
  cases hp : x.pending with
  | nil => rwa [deliver_nil act hp]
  | cons m ms =>
    rw [deliver_cons act hp]
    exact hcons m ms hp

theorem settled_nil {x : Inbox σ M} (h : x.pending = []) : x.settled act = x.state := by
  rw [settled, h]
  rfl

@[simp] theorem settled_deliver (x : Inbox σ M) : (x.deliver act).settled act = x.settled act := by
  cases h : x.pending with
  | nil => rw [deliver_nil act h]
  | cons m ms =>
    rw [deliver_cons act h, settled, settled, h]
    rfl

/-- Process the messages at the head of the queue. -/
theorem iterate_deliver (s : σ) (ms rest : List M) :
    (deliver act)^[ms.length] ⟨s, ms ++ rest⟩ = ⟨ms.foldl act s, rest⟩ := by
  induction ms generalizing s with
  | nil => rfl
  | cons m ms ih => exact ih (act s m)

theorem settled_post (ms : List M) (x : Inbox σ M) :
    (x.post ms).settled act = ms.foldl act (x.settled act) :=
  List.foldl_append

end Inbox

end Links
