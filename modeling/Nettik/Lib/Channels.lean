import Mathlib.Order.BooleanAlgebra.Set
import Mathlib.Tactic.Common

/-!
# A set told over two channels

A replica of a set hears of additions and removals over two channels, each of them in order; on the
slow one it hears of additions only.

* `Event.act`, `after`: what a replica makes of what it hears;
* `final`: the set once everything on the slow channel arrived, and then everything on the fast one;
* `final_announce`, `final_inform`: what a message on either channel makes of it;
* **`final_slow`, `final_fast`**: a delivery does not change it, unless a removal overtakes an
  addition of the same element.
-/

namespace Channels

variable {X : Type*}

inductive Event (X : Type*) where
  | add (x : X)
  | remove (x : X)
  deriving DecidableEq, Repr

def Event.act (held : Set X) : Event X → Set X
  | .add x => insert x held
  | .remove x => held \ {x}

def after (es : List (Event X)) (held : Set X) : Set X := es.foldl Event.act held

variable {es fast slow : List (Event X)} {held : Set X} {x : X}

@[simp] theorem after_nil (held : Set X) : after [] held = held := rfl

@[simp] theorem after_cons (e : Event X) (es : List (Event X)) (held : Set X) :
    after (e :: es) held = after es (e.act held) := rfl

theorem after_append (es es' : List (Event X)) (held : Set X) :
    after (es ++ es') held = after es' (after es held) := List.foldl_append

theorem after_map_add (xs : List X) (held : Set X) :
    after (xs.map .add) held = held ∪ {x | x ∈ xs} := by
  induction xs generalizing held with
  | nil => simp
  | cons x xs ih =>
    rw [List.map_cons, after_cons, ih]
    ext y
    simp [Event.act, or_assoc, or_left_comm]

theorem after_map_remove (xs : List X) (held : Set X) :
    after (xs.map .remove) held = held \ {x | x ∈ xs} := by
  induction xs generalizing held with
  | nil => ext y; simp
  | cons x xs ih =>
    rw [List.map_cons, after_cons, ih]
    ext y
    simp [Event.act, and_assoc]

/-- An addition moves over everything but a removal of the same element. -/
theorem after_insert (h : .remove x ∉ es) (held : Set X) :
    after es (insert x held) = insert x (after es held) := by
  induction es generalizing held with
  | nil => rfl
  | cons e es ih =>
    have hes : .remove x ∉ es := fun hx => h (List.mem_cons_of_mem e hx)
    have he : e.act (insert x held) = insert x (e.act held) := by
      cases e with
      | add y => exact Set.insert_comm y x held
      | remove y =>
        have hxy : x ≠ y := by
          rintro rfl
          exact h List.mem_cons_self
        exact (Set.insert_sdiff_singleton_comm hxy held).symm
    rw [after_cons, after_cons, he, ih hes]

/-- An element that is there in the end may be there from the start. -/
theorem after_insert_of_mem (h : x ∈ after es held) : after es (insert x held) = after es held := by
  induction es generalizing held with
  | nil => exact Set.insert_eq_of_mem h
  | cons e es ih =>
    rw [after_cons, after_cons] at *
    cases e with
    | add y =>
      have he : Event.act (insert x held) (.add y) = insert x (Event.act held (.add y)) :=
        Set.insert_comm y x held
      rw [he, ih h]
    | remove y =>
      by_cases hxy : x = y
      · subst hxy
        have he : Event.act (insert x held) (.remove x) = Event.act held (.remove x) := by
          ext y
          by_cases hy : y = x <;> simp [Event.act, hy]
        rw [he]
      · have he : Event.act (insert x held) (.remove y) = insert x (Event.act held (.remove y)) :=
          (Set.insert_sdiff_singleton_comm hxy held).symm
        rw [he, ih h]

/-- Every event moves over additions, unless it removes one of them. -/
theorem after_act (hslow : ∀ e ∈ slow, ∃ y, e = .add y) {e : Event X}
    (he : ∀ y, e = .remove y → .add y ∉ slow) (held : Set X) :
    after slow (e.act held) = e.act (after slow held) := by
  induction slow generalizing held with
  | nil => rfl
  | cons e' slow ih =>
    obtain ⟨y, rfl⟩ := hslow e' List.mem_cons_self
    have hrest := ih (fun e' he' => hslow e' (List.mem_cons_of_mem _ he'))
      (fun z hz hmem => he z hz (List.mem_cons_of_mem _ hmem))
    rw [after_cons, after_cons, ← hrest]
    congr 1
    cases e with
    | add z => exact Set.insert_comm y z held
    | remove z =>
      have hyz : y ≠ z := by
        rintro rfl
        exact he y rfl List.mem_cons_self
      exact Set.insert_sdiff_singleton_comm hyz held

/-! ## Both channels -/

def final (fast slow : List (Event X)) (held : Set X) : Set X := after fast (after slow held)

theorem final_announce (es : List (Event X)) :
    final (fast ++ es) slow held = after es (final fast slow held) := after_append fast es _

/-- What is there in the end may be said again. -/
theorem final_inform {xs : List X} (h : ∀ x ∈ xs, x ∈ final fast slow held) :
    final fast (slow ++ xs.map .add) held = final fast slow held := by
  unfold final at h ⊢
  rw [after_append]
  generalize after slow held = base at h ⊢
  induction xs generalizing base with
  | nil => rfl
  | cons x xs ih =>
    have hx := after_insert_of_mem (h x List.mem_cons_self)
    have hrest : ∀ y ∈ xs, y ∈ after fast (insert x base) := by
      intro y hy
      rw [hx]
      exact h y (List.mem_cons_of_mem x hy)
    have hall := ih (insert x base) hrest
    rw [List.map_cons, after_cons]
    exact hall.trans hx

theorem final_inform_new (h : .remove x ∉ fast) :
    final fast (slow ++ [.add x]) held = insert x (final fast slow held) := by
  rw [final, after_append]
  exact after_insert h _

/-- **Deliveries on the slow channel.** -/
theorem final_slow (es : List (Event X)) :
    final fast slow (after es held) = final fast (es ++ slow) held := by
  rw [final, final, after_append]

/-- **Deliveries on the fast channel.** -/
theorem final_fast (hslow : ∀ e ∈ slow, ∃ y, e = .add y) {es : List (Event X)}
    (hes : ∀ y, .remove y ∈ es → .add y ∉ slow) :
    final fast slow (after es held) = final (es ++ fast) slow held := by
  rw [final, final, after_append]
  congr 1
  induction es generalizing held with
  | nil => rfl
  | cons e es ih =>
    have he : ∀ y, e = .remove y → .add y ∉ slow := by
      rintro y rfl
      exact hes y List.mem_cons_self
    rw [after_cons, after_cons, ih fun y hy => hes y (List.mem_cons_of_mem e hy), after_act hslow he]

end Channels
