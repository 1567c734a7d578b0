import Nettik.Lib.Links

/-!
# A machine seen through another

* `shown`: the actions of a second machine that a run of the first shows; `shown_append`;
* **`run_shows`**: a relation that every step keeps holds at the end of a run and of what it shows;
* `mem_shown`: what holds of the actions that are shown;
* `shown_paid`: a bound on what a run shows, by the potential of the second machine;
* **`run_filter`**: a run and the run of some of its actions.
-/

namespace Links

variable {σ τ A B : Type*} {step : σ → A → σ} {step' : τ → B → τ} {view : σ → A → List B}

/-- What the steps of a run show, one after the other. -/
def shown (step : σ → A → σ) (view : σ → A → List B) : σ → List A → List B
  | _, [] => []
  | s, a :: acts => view s a ++ shown step view (step s a) acts

theorem run_append (step : σ → A → σ) (s : σ) (acts acts' : List A) :
    run step s (acts ++ acts') = run step (run step s acts) acts' :=
  List.foldl_append

theorem shown_append (step : σ → A → σ) (view : σ → A → List B) (s : σ) (acts acts' : List A) :
    shown step view s (acts ++ acts') = shown step view s acts ++ shown step view (run step s acts) acts' := by
  induction acts generalizing s with
  | nil => rfl
  | cons a acts ih =>
    rw [List.cons_append, shown, ih, shown, List.append_assoc]
    rfl

/-- **A forward simulation**: while every step meets `ok`, the two machines stay related. -/
theorem run_shows {R : σ → τ → Prop} {ok : σ → A → Prop}
    (hstep : ∀ s t a, R s t → ok s a → R (step s a) (run step' t (view s a))) {s : σ} {t : τ}
    (h : R s t) {acts : List A} (hok : Along step ok s acts) :
    R (run step s acts) (run step' t (shown step view s acts)) := by
  induction acts generalizing s t with
  | nil => exact h
  | cons a acts ih =>
    rw [shown, run_append]
    exact ih (hstep s t a h hok.1) hok.2

/-- What holds of every action that a step shows. -/
theorem mem_shown {P : B → Prop} {ok : σ → A → Prop} (hview : ∀ s a, ok s a → ∀ b ∈ view s a, P b)
    {s : σ} {acts : List A} (hok : Along step ok s acts) : ∀ b ∈ shown step view s acts, P b := by
  induction acts generalizing s with
  | nil => exact fun b hb => absurd hb List.not_mem_nil
  | cons a acts ih =>
    intro b hb
    rcases List.mem_append.mp hb with hb | hb
    · exact hview s a hok.1 b hb
    · exact ih hok.2 b hb

/-- **What a run shows is paid for.** Every step shows no more than it takes from the potential of the second
machine, and raises that potential by no more than its cost. -/
theorem shown_paid {C : Type*} {R : σ → τ → Prop} {ok : σ → A → Prop} {out : σ → A → List C} {size : C → ℕ}
    {pot : τ → ℕ} {cost : A → ℕ} (hstep : ∀ s t a, R s t → ok s a → R (step s a) (run step' t (view s a)) ∧
      ((out s a).map size).sum + pot (run step' t (view s a)) ≤ pot t + cost a) {s : σ} {t : τ}
    (h : R s t) {acts : List A} (hok : Along step ok s acts) :
    ((shown step out s acts).map size).sum + pot (run step' t (shown step view s acts)) ≤
      pot t + (acts.map cost).sum := by
  induction acts generalizing s t with
  | nil => exact Nat.le_of_eq (Nat.zero_add _)
  | cons a acts ih =>
    obtain ⟨hnext, hpaid⟩ := hstep s t a h hok.1
    have hrest := ih hnext hok.2
    rw [shown, shown, run_append, List.map_append, List.sum_append, List.map_cons, List.sum_cons]
    omega

/-- **The actions that do not count.** A relation that the chosen actions keep, taken on both sides, and
the others keep, taken on one side, relates a run to the run of the chosen actions. -/
theorem run_filter {R : σ → σ → Prop} {p : A → Bool}
    (hboth : ∀ s t a, R s t → p a = true → R (step s a) (step t a))
    (hone : ∀ s t a, R s t → p a = false → R (step s a) t) {s t : σ} (h : R s t) (acts : List A) :
    R (run step s acts) (run step t (acts.filter p)) := by
  induction acts generalizing s t with
  | nil => exact h
  | cons a acts ih =>
    rw [List.filter_cons]
    cases ha : p a with
    | true => exact ih (hboth s t a h ha)
    | false => exact ih (hone s t a h ha)

end Links
