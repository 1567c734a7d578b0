import Mathlib.Data.List.Basic
import Mathlib.Data.List.Induction
import Mathlib.Logic.Function.Basic
import Mathlib.Tactic.Common

/-!
# Logs of map operations

A map changes by operations on one key each, and a copy follows by replaying a log of them.

* `Op`, `Op.act`, `replay`: the operations and what a log does to a map;
* `replay_congr`, `isSome_replay_congr`: a log works key by key, and whether it leaves a key depends
  on the presence of that key only;
* `Grounded`: every update finds its key; **`replay_replay`**: a grounded log can be replayed on a map
  that reflects it already, and `replay_of_prefix` on one that reflects a part of it;
* `InStepAt`: two maps that change on their own, with the logs on their way to each other;
  `InStepAt.write`, `InStepAt.deliver`: operations on a key that do not cross keep them in step;
* `Hub`: a hub and a writer that change a map each, and a reader the hub tells of every change.
-/

namespace Replay

variable {K V : Type*}

/-- An operation on a map: `update` does nothing to a missing key. -/
inductive Op (K V : Type*) where
  | put (key : K) (value : V)
  | update (key : K) (value : V)
  | erase (key : K)
  deriving DecidableEq, Repr

namespace Op

def key : Op K V → K
  | put key _ | update key _ | erase key => key

/-- What the operation leaves of a value at its key. -/
def effect : Op K V → Option V → Option V
  | put _ value, _ => some value
  | update _ value, old => old.map fun _ => value
  | erase _, _ => none

/-- The operation is not an update of a missing key. -/
def Finds (m : K → Option V) : Op K V → Prop
  | update key _ => (m key).isSome
  | _ => True

theorem isSome_effect {op : Op K V} {v w : Option V} (h : v.isSome = w.isSome) :
    (op.effect v).isSome = (op.effect w).isSome := by
  cases op with
  | put key value => rfl
  | update key value => simpa [effect] using h
  | erase key => rfl

variable [DecidableEq K]

def act (m : K → Option V) (op : Op K V) : K → Option V := Function.update m op.key (op.effect (m op.key))

theorem act_apply (m : K → Option V) (op : Op K V) (k : K) :
    op.act m k = if k = op.key then op.effect (m k) else m k := by
  rw [act, Function.update_apply]
  split_ifs with hk
  · rw [hk]
  · rfl

theorem act_apply_ne {m : K → Option V} {op : Op K V} {k : K} (h : k ≠ op.key) : op.act m k = m k :=
  Function.update_of_ne h _ _

end Op

variable [DecidableEq K]

def replay (m : K → Option V) (ops : List (Op K V)) : K → Option V := ops.foldl Op.act m

@[simp] theorem replay_nil (m : K → Option V) : replay m [] = m := rfl

@[simp] theorem replay_cons (m : K → Option V) (op : Op K V) (ops : List (Op K V)) :
    replay m (op :: ops) = replay (op.act m) ops := rfl

theorem replay_append (m : K → Option V) (ops ops' : List (Op K V)) :
    replay m (ops ++ ops') = replay (replay m ops) ops' :=
  List.foldl_append

theorem replay_take_tail (m : K → Option V) (ops : List (Op K V)) :
    replay (replay m (ops.take 1)) ops.tail = replay m ops := by
  cases ops <;> rfl

theorem replay_congr {m m' : K → Option V} {k : K} (ops : List (Op K V)) (h : m k = m' k) :
    replay m ops k = replay m' ops k := by
  induction ops generalizing m m' with
  | nil => exact h
  | cons op ops ih =>
    apply ih
    rw [Op.act_apply, Op.act_apply, h]

theorem isSome_replay_congr {m m' : K → Option V} {k : K} (ops : List (Op K V))
    (h : (m k).isSome = (m' k).isSome) : (replay m ops k).isSome = (replay m' ops k).isSome := by
  induction ops generalizing m m' with
  | nil => exact h
  | cons op ops ih =>
    apply ih
    rw [Op.act_apply, Op.act_apply]
    split_ifs
    · exact Op.isSome_effect h
    · exact h

/-- No operation of the log is on this key. -/
def Spares (k : K) (ops : List (Op K V)) : Prop := ∀ op ∈ ops, k ≠ op.key

omit [DecidableEq K] in
@[simp] theorem spares_nil (k : K) : Spares k ([] : List (Op K V)) := by
  simp [Spares]

omit [DecidableEq K] in
@[simp] theorem spares_cons (k : K) (op : Op K V) (ops : List (Op K V)) :
    Spares k (op :: ops) ↔ k ≠ op.key ∧ Spares k ops := by
  simp [Spares]

omit [DecidableEq K] in
@[simp] theorem spares_append (k : K) (ops ops' : List (Op K V)) :
    Spares k (ops ++ ops') ↔ Spares k ops ∧ Spares k ops' := by
  simp [Spares, or_imp, forall_and]

theorem replay_of_spares {m : K → Option V} {k : K} {ops : List (Op K V)} (h : Spares k ops) :
    replay m ops k = m k := by
  induction ops generalizing m with
  | nil => rfl
  | cons op ops ih =>
    obtain ⟨hk, hops⟩ := (spares_cons k op ops).mp h
    rw [replay_cons, ih hops, Op.act_apply_ne hk]

/-- Every update finds its key when it is its turn. -/
def Grounded : (K → Option V) → List (Op K V) → Prop
  | _, [] => True
  | m, op :: ops => op.Finds m ∧ Grounded (op.act m) ops

theorem grounded_append {m : K → Option V} {ops ops' : List (Op K V)} :
    Grounded m (ops ++ ops') ↔ Grounded m ops ∧ Grounded (replay m ops) ops' := by
  induction ops generalizing m with
  | nil => simp [Grounded]
  | cons op ops ih =>
    rw [List.cons_append, Grounded, Grounded, ih, replay_cons, and_assoc]

/-- **Replaying a log twice is replaying it once.** -/
theorem replay_replay {m : K → Option V} {ops : List (Op K V)} (h : Grounded m ops) :
    replay (replay m ops) ops = replay m ops := by
  -- from the last operation backwards: it restores what an earlier one may have undone
  induction ops using List.reverseRecOn with
  | nil => rfl
  | append_singleton ops op ih =>
    obtain ⟨hops, hlast, -⟩ := grounded_append.mp h
    have ih := ih hops
    rw [replay_append, replay_append]
    show op.act (replay (op.act (replay m ops)) ops) = op.act (replay m ops)
    funext k
    rw [Op.act_apply, Op.act_apply (replay m ops)]
    by_cases hk : k = op.key
    · subst hk
      rw [if_pos rfl, if_pos rfl]
      cases op with
      | put key value => rfl
      | erase key => rfl
      | update key value =>
        -- the key is present before the second replay, hence behind it, as it was behind the first
        have hold : (replay m ops key).isSome = true := hlast
        have hnew : ((Op.update key value).act (replay m ops) key).isSome =
            (replay m ops key).isSome := by
          simp [Op.act_apply, Op.key, Op.effect]
        have hpresent := isSome_replay_congr ops hnew
        rw [congrFun ih key, hold] at hpresent
        obtain ⟨v, hv⟩ := Option.isSome_iff_exists.mp hold
        obtain ⟨w, hw⟩ := Option.isSome_iff_exists.mp hpresent
        simp only [Op.key, Op.effect, hv, hw, Option.map_some]
    · rw [if_neg hk, if_neg hk, ← congrFun ih k]
      exact replay_congr ops (Op.act_apply_ne hk)

/-- **A map that reflects a prefix of the log catches up by replaying all of it.** -/
theorem replay_of_prefix {m : K → Option V} {ops ops' : List (Op K V)} (h : Grounded m (ops ++ ops')) :
    replay (replay m ops) (ops ++ ops') = replay m (ops ++ ops') := by
  rw [replay_append, replay_replay (grounded_append.mp h).1, replay_append]

/-! ## Two maps that follow each other -/

/-- Operations on the key travel in one direction at most, and make the other map what the sender is.
`l` is the log on its way to `m`, `l'` the one on its way to `m'`. -/
structure InStepAt (k : K) (m m' : K → Option V) (l l' : List (Op K V)) : Prop where
  apart : Spares k l ∨ Spares k l'
  toLeft : Spares k l' → replay m l k = m' k
  toRight : Spares k l → replay m' l' k = m k

namespace InStepAt

variable {k : K} {m m' : K → Option V} {l l' : List (Op K V)}

theorem symm (h : InStepAt k m m' l l') : InStepAt k m' m l' l :=
  ⟨h.apart.symm, h.toRight, h.toLeft⟩

/-- One side changes, and sends what it did. -/
theorem write (h : InStepAt k m m' l l') {ops : List (Op K V)} (hcross : ¬ Spares k ops → Spares k l) :
    InStepAt k (replay m ops) m' l (l' ++ ops) := by
  by_cases hops : Spares k ops
  · have hsame : replay m ops k = m k := replay_of_spares hops
    refine ⟨?_, ?_, ?_⟩
    · rw [spares_append, and_iff_left hops]
      exact h.apart
    · intro hl
      rw [replay_congr l hsame]
      exact h.toLeft ((spares_append k l' ops).mp hl).1
    · intro hl
      rw [replay_append, replay_of_spares hops, hsame]
      exact h.toRight hl
  · have hl := hcross hops
    refine ⟨Or.inl hl, ?_, ?_⟩
    · intro hl'
      exact absurd ((spares_append k l' ops).mp hl').2 hops
    · intro _
      rw [replay_append]
      exact replay_congr ops (h.toRight hl)

/-- One side takes the next operation on its way to it. -/
theorem deliver {op : Op K V} (h : InStepAt k m m' (op :: l) l') : InStepAt k (op.act m) m' l l' := by
  by_cases hk : k = op.key
  · have hl' : Spares k l' := h.apart.resolve_left fun hl => ((spares_cons k op l).mp hl).1 hk
    refine ⟨Or.inr hl', h.toLeft, fun hl => ?_⟩
    have hleft : replay (op.act m) l k = m' k := h.toLeft hl'
    rw [replay_of_spares hl', ← hleft, replay_of_spares hl]
  · have hsame : op.act m k = m k := Op.act_apply_ne hk
    refine ⟨?_, h.toLeft, fun hl => ?_⟩
    · exact h.apart.imp_left fun hl => ((spares_cons k op l).mp hl).2
    · rw [hsame]
      exact h.toRight ((spares_cons k op l).mpr ⟨hk, hl⟩)

theorem deliverNext (h : InStepAt k m m' l l') :
    InStepAt k (replay m (l.take 1)) m' l.tail l' := by
  cases l with
  | nil => exact h
  | cons op l => exact h.deliver

end InStepAt

/-! ## A hub with a writer and a reader -/

/-- Three maps and the logs on their way to them. -/
structure Hub (K V : Type*) where
  hub : K → Option V
  writer : K → Option V
  reader : K → Option V
  toHub : List (Op K V)
  toWriter : List (Op K V)
  toReader : List (Op K V)

/-- A side changes its map and sends what it did, or takes the next operation on its way to it; the hub
sends on to the reader what became of it. -/
inductive Move (K V : Type*) where
  | idle
  | writeHub (ops : List (Op K V))
  | writeWriter (ops : List (Op K V))
  | deliverHub (ops : List (Op K V))
  | deliverWriter
  | deliverReader

namespace Hub

def move (x : Hub K V) : Move K V → Hub K V
  | .idle => x
  | .writeHub ops =>
    { x with hub := replay x.hub ops, toWriter := x.toWriter ++ ops, toReader := x.toReader ++ ops }
  | .writeWriter ops => { x with writer := replay x.writer ops, toHub := x.toHub ++ ops }
  | .deliverHub ops =>
    { x with hub := replay x.hub ops, toHub := x.toHub.tail, toReader := x.toReader ++ ops }
  | .deliverWriter => { x with writer := replay x.writer (x.toWriter.take 1), toWriter := x.toWriter.tail }
  | .deliverReader => { x with reader := replay x.reader (x.toReader.take 1), toReader := x.toReader.tail }

/-- What the hub sends on is what the next operation did. -/
def Faithful (x : Hub K V) : Move K V → Prop
  | .deliverHub ops => replay x.hub ops = replay x.hub (x.toHub.take 1)
  | _ => True

/-- A side writes to the key only when nothing of the other side is on its way there. -/
def Apart (k : K) (x : Hub K V) : Move K V → Prop
  | .writeHub ops => ¬ Spares k ops → Spares k x.toHub
  | .writeWriter ops => ¬ Spares k ops → Spares k x.toWriter
  | _ => True

/-- The reader will be what the hub is. -/
def Followed (x : Hub K V) : Prop := replay x.reader x.toReader = x.hub

/-- **The reader follows every move.** -/
theorem Followed.move {x : Hub K V} (h : x.Followed) (mv : Move K V) : (x.move mv).Followed := by
  unfold Followed at h
  cases mv with
  | idle => exact h
  | writeHub ops =>
    show replay x.reader (x.toReader ++ ops) = replay x.hub ops
    rw [replay_append, h]
  | writeWriter ops => exact h
  | deliverHub ops =>
    show replay x.reader (x.toReader ++ ops) = replay x.hub ops
    rw [replay_append, h]
  | deliverWriter => exact h
  | deliverReader => exact (replay_take_tail x.reader x.toReader).trans h

/-- **Moves that do not cross keep hub and writer in step.** -/
theorem inStepAt_move {k : K} {x : Hub K V} (h : InStepAt k x.hub x.writer x.toHub x.toWriter)
    {mv : Move K V} (hfaithful : x.Faithful mv) (hapart : x.Apart k mv) :
    InStepAt k (x.move mv).hub (x.move mv).writer (x.move mv).toHub (x.move mv).toWriter := by
  cases mv with
  | idle => exact h
  | writeHub ops => exact h.write hapart
  | writeWriter ops => exact (h.symm.write hapart).symm
  | deliverHub ops =>
    show InStepAt k (replay x.hub ops) x.writer x.toHub.tail x.toWriter
    rw [show replay x.hub ops = _ from hfaithful]
    exact h.deliverNext
  | deliverWriter => exact (h.symm.deliverNext).symm
  | deliverReader => exact h

end Hub

end Replay
