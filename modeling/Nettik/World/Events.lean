import Nettik.Lib.Links
import Nettik.World.ListOps

/-!
# Callbacks of lists

A remote change calls the callbacks bound to its event. A `ScheduleCheck` may put a call off, and
`think` makes up for it.

* `CNetVarList`: a list with its bindings; `dispatch`, `think`; `onRemote` the handlers of the messages;
* `base_onRemote_unscheduled`: without a `ScheduleCheck` the list is the `NetVarList` alone;
* `bare_onRemote`: with one, what a message does to the elements is the same;
* **`deferred_iff`**: the elements are what the operations alone leave exactly as long as no call is
  made up for whose key is gone.
-/

namespace Nettik

open ByteMem Links

/-! ## Bindings -/

/-- The events of an element. -/
inductive ListEvent where
  | add
  | update
  | remove
  deriving DecidableEq, Repr

/-- The callback that the constructor binds to an event, or the `n`-th of the application. -/
inductive ListCallback where
  | relay (evt : ListEvent)
  | listener (evt : ListEvent) (n : ℕ)
  deriving DecidableEq, Repr

structure QueuedEvent where
  key : UInt32
  dest : ListCallback
  deriving DecidableEq, Repr

/-- How many callbacks the application binds to an event, and what its `ScheduleCheck` answers when it is
called for the `n`-th time; `invoked` are the callbacks called so far, with their keys. The callbacks of
the application do not change the list. -/
structure ListBindings where
  listeners : ListEvent → ℕ := fun _ => 0
  scheduleCheck : Option (ℕ → Bool) := none
  checks : ℕ := 0
  queuedEvents : List QueuedEvent := []
  invoked : List (ListCallback × UInt32) := []

def ListBindings.callbacks (evt : ListEvent) (b : ListBindings) : List ListCallback :=
  .relay evt :: (List.range (b.listeners evt)).map (.listener evt)

/-- The `ScheduleCheck` refuses the next call. -/
def ListBindings.defers (b : ListBindings) : Bool :=
  match b.scheduleCheck with
  | none => false
  | some answer => !answer b.checks

/-- How many callbacks were called, the `ScheduleCheck` among them. -/
def ListBindings.calls (b : ListBindings) : ℕ := b.checks + b.invoked.length

structure CNetVarList where
  base : NetVarList
  bindings : ListBindings := {}

/-- The callback of the constructor, called with `m_Data[key]`. -/
def ListEvent.relay (ctx : ListContext) (key : UInt32) : ListEvent → NetVarList → NetVarList
  | .add => NetVarList.dispatchAdd ctx key
  | .update => NetVarList.dispatchUpdate ctx key
  | .remove => NetVarList.dispatchRemove ctx key

namespace CNetVarList

/-- The check is called with `m_Data[key]`; a call that it refuses is put off. -/
def needsScheduling (key : UInt32) (dest : ListCallback) (s : CNetVarList) : Bool × CNetVarList :=
  match s.bindings.scheduleCheck with
  | none => (false, s)
  | some answer =>
    let bindings := { s.bindings with checks := s.bindings.checks + 1 }
    if answer s.bindings.checks then (false, ⟨s.base.subscript key, bindings⟩)
    else (true, ⟨s.base.subscript key,
      { bindings with queuedEvents := bindings.queuedEvents ++ [⟨key, dest⟩] }⟩)

/-- A callback is called with `m_Data[key]`. -/
def invoke (ctx : ListContext) (dest : ListCallback) (key : UInt32) (s : CNetVarList) : CNetVarList where
  base :=
    match dest with
    | .relay evt => evt.relay ctx key s.base
    | .listener _ _ => s.base.subscript key
  bindings := { s.bindings with invoked := s.bindings.invoked ++ [(dest, key)] }

/-- One turn of the loop over the callbacks of an event. -/
def visit (ctx : ListContext) (key : UInt32) (s : CNetVarList) (dest : ListCallback) : CNetVarList :=
  if (s.needsScheduling key dest).1 then (s.needsScheduling key dest).2
  else (s.needsScheduling key dest).2.invoke ctx dest key

/-- `dispatch_add`, `dispatch_update` and `dispatch_remove`. -/
def dispatch (ctx : ListContext) (evt : ListEvent) (key : UInt32) (s : CNetVarList) : CNetVarList :=
  (s.bindings.callbacks evt).foldl (visit ctx key) s

/-- The check decides about all calls that were put off. -/
def delivers (s : CNetVarList) : Bool :=
  match s.bindings.scheduleCheck with
  | none => false
  | some answer => answer s.bindings.checks

/-- `dispatcher_think`. -/
def think (ctx : ListContext) (s : CNetVarList) : CNetVarList :=
  match s.bindings.scheduleCheck with
  | none => s
  | some answer =>
    let bindings := { s.bindings with checks := s.bindings.checks + 1 }
    if answer s.bindings.checks then
      s.bindings.queuedEvents.foldl (fun s e => s.invoke ctx e.dest e.key)
        ⟨s.base, { bindings with queuedEvents := [] }⟩
    else ⟨s.base, bindings⟩

def onRemoteAdd (ctx : ListContext) (m : MapAdd) (s : CNetVarList) : CNetVarList :=
  if m.value.length = s.base.size then
    { s with base := (s.base.subscript m.key).overwrite m.key m.value }.dispatch ctx .add m.key
  else { s with base := s.base.subscript m.key }

def onRemoteUpdate (ctx : ListContext) (m : MapUpdate) (s : CNetVarList) : CNetVarList :=
  if m.key ∈ s.base.data ∧ m.value.length = s.base.size then
    { s with base := s.base.overwrite m.key m.value }.dispatch ctx .update m.key
  else s

/-- `remove_at`. -/
def removeAt (key : UInt32) (s : CNetVarList) : CNetVarList :=
  { s with base := { s.base with data := s.base.data.erase key } }

/-- The callbacks run before the element is erased. -/
def onRemoteRemove (ctx : ListContext) (m : MapRemove) (s : CNetVarList) : CNetVarList :=
  (s.dispatch ctx .remove m.key).removeAt m.key

def onRemote (ctx : ListContext) : ListMsg → CNetVarList → CNetVarList
  | .add m => onRemoteAdd ctx m
  | .update m => onRemoteUpdate ctx m
  | .remove m => onRemoteRemove ctx m

end CNetVarList

/-! ## Lists without their queues -/

namespace NetVarList

/-- All of a list but what it is about to send. -/
def bare (l : NetVarList) : NetVarList := { l with updateQueue := [] }

variable {ctx : ListContext} {l l' : NetVarList} {key : UInt32}

theorem bare_relay (ctx : ListContext) (msg : ListMsg) (l : NetVarList) :
    (l.relay ctx msg).bare = l.bare := by
  unfold relay
  split_ifs <;> rfl

theorem subscript_subscript (key : UInt32) (l : NetVarList) :
    (l.subscript key).subscript key = l.subscript key := subscript_of_mem (mem_subscript key l)

theorem bare_eventRelay (ctx : ListContext) (key : UInt32) (evt : ListEvent) (l : NetVarList) :
    (evt.relay ctx key l).bare = (l.subscript key).bare := by
  cases evt <;> exact bare_relay ctx _ _

/-- Lists that differ in their queues hold the same elements. -/
theorem find_of_bare (h : l.bare = l'.bare) (k : UInt32) : l.find k = l'.find k :=
  show l.bare.find k = l'.bare.find k by rw [h]

theorem mem_data_of_bare (h : l.bare = l'.bare) : key ∈ l.data ↔ key ∈ l'.data := by
  rw [mem_data_iff, mem_data_iff, find_of_bare h]

theorem bare_onRemote (ctx : ListContext) (msg : ListMsg) (l : NetVarList) :
    (l.onRemote ctx msg).bare = (l.bare.onRemote ctx msg).bare := by
  cases msg with
  | add m =>
    show (l.onRemoteAdd ctx m).bare = (l.bare.onRemoteAdd ctx m).bare
    unfold onRemoteAdd
    by_cases h : m.value.length = l.size
    · rw [if_pos h, if_pos (show m.value.length = l.bare.size from h)]
      exact (bare_eventRelay ctx m.key .add ((l.subscript m.key).overwrite m.key m.value)).trans
        (bare_eventRelay ctx m.key .add ((l.bare.subscript m.key).overwrite m.key m.value)).symm
    · rw [if_neg h, if_neg (show ¬ m.value.length = l.bare.size from h)]
      rfl
  | update m =>
    show (l.onRemoteUpdate ctx m).bare = (l.bare.onRemoteUpdate ctx m).bare
    unfold onRemoteUpdate
    by_cases h : m.key ∈ l.data ∧ m.value.length = l.size
    · rw [if_pos h, if_pos (show m.key ∈ l.bare.data ∧ m.value.length = l.bare.size from h)]
      exact (bare_eventRelay ctx m.key .update (l.overwrite m.key m.value)).trans
        (bare_eventRelay ctx m.key .update (l.bare.overwrite m.key m.value)).symm
    · rw [if_neg h, if_neg (show ¬ (m.key ∈ l.bare.data ∧ m.value.length = l.bare.size) from h)]
      rfl
  | remove m =>
    have hrelay : (l.dispatchRemove ctx m.key).bare = (l.bare.dispatchRemove ctx m.key).bare :=
      (bare_eventRelay ctx m.key .remove l).trans (bare_eventRelay ctx m.key .remove l.bare).symm
    exact congrArg (fun l => { l with data := l.data.erase m.key }) hrelay

/-- A loop of steps that do not look at the queue. -/
theorem bare_foldl {f : NetVarList → UInt32 → NetVarList}
    (hf : ∀ l key, (f l key).bare = (f l.bare key).bare) (keys : List UInt32) (l : NetVarList) :
    (keys.foldl f l).bare = (keys.foldl f l.bare).bare := by
  induction keys generalizing l with
  | nil => rfl
  | cons key keys ih => rw [List.foldl_cons, List.foldl_cons, ih, hf, ← ih]

theorem bare_removeItem (ctx : ListContext) (l : NetVarList) (key : UInt32) :
    (l.removeItem ctx key).2.bare = (l.bare.removeItem ctx key).2.bare := rfl

theorem bare_remove (ctx : ListContext) (l : NetVarList) (key : UInt32) :
    (l.remove ctx key).2.bare = (l.bare.remove ctx key).2.bare := by
  unfold remove
  by_cases h : key ∈ l.data
  · rw [if_pos h, if_pos (show key ∈ l.bare.data from h)]
    rfl
  · rw [if_neg h, if_neg (show key ∉ l.bare.data from h)]
    rfl

theorem bare_call {size : ℕ} (ctx : ListContext) (op : ListOp size) (l : NetVarList) :
    (l.call ctx op).bare = (l.bare.call ctx op).bare := by
  cases op with
  | create key data =>
    show (l.create ctx key data.toList).2.bare = (l.bare.create ctx key data.toList).2.bare
    unfold create
    by_cases h : key ∈ l.data
    · rw [if_pos h, if_pos (show key ∈ l.bare.data from h)]
      rfl
    · rw [if_neg h, if_neg (show key ∉ l.bare.data from h)]
      rfl
  | set key data =>
    show (l.set ctx key data.toList).bare = (l.bare.set ctx key data.toList).bare
    unfold set
    by_cases h : key ∈ l.data
    · rw [if_pos h, if_pos (show key ∈ l.bare.data from h)]
      rfl
    · rw [if_neg h, if_neg (show key ∉ l.bare.data from h)]
      rfl
  | remove key => exact bare_remove ctx l key
  | removeAll order => exact bare_foldl (bare_remove ctx) (l.walk order) l
  | clear order => exact bare_foldl (bare_removeItem ctx) (l.walk order) l

end NetVarList

/-! ## What a message does -/

namespace CNetVarList

variable {ctx : ListContext} {s : CNetVarList} {key : UInt32}

theorem bare_invoke (ctx : ListContext) (dest : ListCallback) (key : UInt32) (s : CNetVarList) :
    (s.invoke ctx dest key).base.bare = (s.base.subscript key).bare := by
  cases dest with
  | relay evt => exact NetVarList.bare_eventRelay ctx key evt s.base
  | listener evt n => rfl

/-- **One turn of the loop**: without a check the call is made; a check looks up the key and lets the call
through or puts it off. -/
theorem visit_cases (ctx : ListContext) (key : UInt32) (s : CNetVarList) (dest : ListCallback) :
    (s.bindings.scheduleCheck = none ∧ s.visit ctx key dest = s.invoke ctx dest key) ∨
    (s.bindings.scheduleCheck.isSome ∧ s.bindings.defers = false ∧ s.visit ctx key dest =
      invoke ctx dest key ⟨s.base.subscript key, { s.bindings with checks := s.bindings.checks + 1 }⟩) ∨
    (s.bindings.defers = true ∧ s.visit ctx key dest = ⟨s.base.subscript key,
      { s.bindings with
        checks := s.bindings.checks + 1
        queuedEvents := s.bindings.queuedEvents ++ [⟨key, dest⟩] }⟩) := by
  unfold visit needsScheduling ListBindings.defers
  cases s.bindings.scheduleCheck with
  | none => exact Or.inl ⟨rfl, rfl⟩
  | some answer =>
    dsimp only
    by_cases ha : answer s.bindings.checks = true
    · simp only [ha, if_true]
      exact Or.inr (Or.inl ⟨rfl, rfl, rfl⟩)
    · simp only [Bool.not_eq_true] at ha
      simp only [ha, Bool.false_eq_true, if_false]
      exact Or.inr (Or.inr ⟨rfl, rfl⟩)

theorem defers_unscheduled (h : s.bindings.scheduleCheck = none) : s.bindings.defers = false := by
  rw [ListBindings.defers, h]

/-- Whether a call is made or put off, the key is looked up. -/
theorem bare_visit (ctx : ListContext) (key : UInt32) (s : CNetVarList) (dest : ListCallback) :
    (s.visit ctx key dest).base.bare = (s.base.subscript key).bare := by
  rcases visit_cases ctx key s dest with ⟨-, h⟩ | ⟨-, -, h⟩ | ⟨-, h⟩ <;> rw [h]
  · exact bare_invoke ctx dest key s
  · rw [bare_invoke, NetVarList.subscript_subscript]

/-- What no turn of the loop changes, and the first establishes. -/
theorem foldl_visit {I : CNetVarList → Prop} (ctx : ListContext) (key : UInt32)
    (hI : ∀ s dest, I s → I (s.visit ctx key dest)) (evt : ListEvent) {s : CNetVarList}
    (hs : I (s.visit ctx key (.relay evt))) : I (s.dispatch ctx evt key) := by
  rw [dispatch, ListBindings.callbacks, List.foldl_cons]
  generalize s.visit ctx key (.relay evt) = t at hs
  induction (List.range (s.bindings.listeners evt)).map (ListCallback.listener evt) generalizing t with
  | nil => exact hs
  | cons dest dests ih => exact ih _ (hI t dest hs)

theorem bare_dispatch (ctx : ListContext) (evt : ListEvent) (key : UInt32) (s : CNetVarList) :
    (s.dispatch ctx evt key).base.bare = (s.base.subscript key).bare := by
  refine foldl_visit (I := fun t => t.base.bare = (s.base.subscript key).bare) ctx key
    (fun t dest ht => ?_) _ (bare_visit ctx key s (.relay evt))
  calc (t.visit ctx key dest).base.bare
      = t.base.bare.subscript key := bare_visit ctx key t dest
    _ = (s.base.subscript key).bare.subscript key := by rw [ht]
    _ = (s.base.subscript key).bare :=
      congrArg NetVarList.bare (NetVarList.subscript_subscript key s.base)

/-- **A `ScheduleCheck` does not change what a message does to the elements.** -/
theorem bare_onRemote (ctx : ListContext) (msg : ListMsg) (s : CNetVarList) :
    (s.onRemote ctx msg).base.bare = (s.base.onRemote ctx msg).bare := by
  cases msg with
  | add m =>
    show (s.onRemoteAdd ctx m).base.bare = (s.base.onRemoteAdd ctx m).bare
    unfold onRemoteAdd NetVarList.onRemoteAdd
    split_ifs
    · exact (bare_dispatch ctx .add m.key _).trans (NetVarList.bare_eventRelay ctx m.key .add _).symm
    · rfl
  | update m =>
    show (s.onRemoteUpdate ctx m).base.bare = (s.base.onRemoteUpdate ctx m).bare
    unfold onRemoteUpdate NetVarList.onRemoteUpdate
    split_ifs
    · exact (bare_dispatch ctx .update m.key _).trans
        (NetVarList.bare_eventRelay ctx m.key .update _).symm
    · rfl
  | remove m =>
    have hdispatch : (s.dispatch ctx .remove m.key).base.bare = (s.base.dispatchRemove ctx m.key).bare :=
      (bare_dispatch ctx .remove m.key s).trans
        (NetVarList.bare_eventRelay ctx m.key .remove s.base).symm
    exact congrArg (fun l : NetVarList => { l with data := l.data.erase m.key }) hdispatch

/-! ### Bindings -/

theorem scheduleCheck_visit (ctx : ListContext) (key : UInt32) (s : CNetVarList) (dest : ListCallback) :
    (s.visit ctx key dest).bindings.scheduleCheck = s.bindings.scheduleCheck := by
  rcases visit_cases ctx key s dest with ⟨-, h⟩ | ⟨-, -, h⟩ | ⟨-, h⟩ <;> rw [h] <;> rfl

theorem scheduleCheck_onRemote (ctx : ListContext) (msg : ListMsg) (s : CNetVarList) :
    (s.onRemote ctx msg).bindings.scheduleCheck = s.bindings.scheduleCheck := by
  have hdispatch : ∀ (evt : ListEvent) (key : UInt32) (t : CNetVarList),
      (t.dispatch ctx evt key).bindings.scheduleCheck = t.bindings.scheduleCheck := fun evt key t =>
    foldl_visit (I := fun t' => t'.bindings.scheduleCheck = t.bindings.scheduleCheck) ctx key
      (fun t' dest ht' => (scheduleCheck_visit ctx key t' dest).trans ht') evt
      (scheduleCheck_visit ctx key t _)
  cases msg with
  | add m =>
    show (s.onRemoteAdd ctx m).bindings.scheduleCheck = _
    unfold onRemoteAdd
    split_ifs
    · exact hdispatch .add m.key _
    · rfl
  | update m =>
    show (s.onRemoteUpdate ctx m).bindings.scheduleCheck = _
    unfold onRemoteUpdate
    split_ifs
    · exact hdispatch .update m.key _
    · rfl
  | remove m => exact hdispatch .remove m.key s

/-- Every turn of the loop calls something. -/
theorem lt_calls_visit (ctx : ListContext) (key : UInt32) (s : CNetVarList) (dest : ListCallback) :
    s.bindings.calls < (s.visit ctx key dest).bindings.calls := by
  rcases visit_cases ctx key s dest with ⟨-, h⟩ | ⟨-, -, h⟩ | ⟨-, h⟩ <;> rw [h] <;>
    simp only [invoke, ListBindings.calls, List.length_append, List.length_singleton] <;> omega

theorem lt_calls_dispatch (ctx : ListContext) (evt : ListEvent) (key : UInt32) (s : CNetVarList) :
    s.bindings.calls < (s.dispatch ctx evt key).bindings.calls :=
  foldl_visit (I := fun t => s.bindings.calls < t.bindings.calls) ctx key
    (fun t dest ht => ht.trans (lt_calls_visit ctx key t dest)) evt
    (lt_calls_visit ctx key s (.relay evt))

/-! ### Queues -/

theorem eventRelay_subscript (ctx : ListContext) (key : UInt32) (evt : ListEvent) (l : NetVarList) :
    evt.relay ctx key (l.subscript key) = evt.relay ctx key l := by
  cases evt <;> simp only [ListEvent.relay, NetVarList.dispatchAdd, NetVarList.dispatchUpdate,
    NetVarList.dispatchRemove, NetVarList.subscript_subscript]

theorem updateQueue_visit_relay (ctx : ListContext) (key : UInt32) (evt : ListEvent) (s : CNetVarList) :
    (s.visit ctx key (.relay evt)).base.updateQueue =
      if s.bindings.defers then s.base.updateQueue else (evt.relay ctx key s.base).updateQueue := by
  rcases visit_cases ctx key s (.relay evt) with ⟨hcheck, h⟩ | ⟨-, hd, h⟩ | ⟨hd, h⟩ <;> rw [h]
  · rw [defers_unscheduled hcheck]
    rfl
  · rw [hd]
    exact congrArg NetVarList.updateQueue (eventRelay_subscript ctx key evt s.base)
  · rw [hd]
    rfl

theorem updateQueue_visit_listener (ctx : ListContext) (key : UInt32) (evt : ListEvent) (n : ℕ)
    (s : CNetVarList) : (s.visit ctx key (.listener evt n)).base.updateQueue = s.base.updateQueue := by
  rcases visit_cases ctx key s (.listener evt n) with ⟨-, h⟩ | ⟨-, -, h⟩ | ⟨-, h⟩ <;> rw [h] <;> rfl

/-- **Only the relay queues anything**, unless it is put off. -/
theorem updateQueue_dispatch (ctx : ListContext) (evt : ListEvent) (key : UInt32) (s : CNetVarList) :
    (s.dispatch ctx evt key).base.updateQueue =
      if s.bindings.defers then s.base.updateQueue else (evt.relay ctx key s.base).updateQueue := by
  rw [← updateQueue_visit_relay, dispatch, ListBindings.callbacks, List.foldl_cons]
  generalize s.visit ctx key (.relay evt) = t
  induction List.range (s.bindings.listeners evt) generalizing t with
  | nil => rfl
  | cons n ns ih => rw [List.map_cons, List.foldl_cons, ih, updateQueue_visit_listener]

/-! ### Without a `ScheduleCheck` -/

theorem dispatch_unscheduled (h : s.bindings.scheduleCheck = none) (ctx : ListContext) (evt : ListEvent)
    (key : UInt32) : (s.dispatch ctx evt key).base = evt.relay ctx key s.base ∧
      (s.dispatch ctx evt key).bindings.queuedEvents = s.bindings.queuedEvents := by
  have hvisit : ∀ (t : CNetVarList) (dest : ListCallback), t.bindings.scheduleCheck = none →
      t.visit ctx key dest = t.invoke ctx dest key := by
    intro t dest ht
    simp only [visit, needsScheduling, ht, Bool.false_eq_true, if_false]
  -- the callbacks of the application find the key
  have hrest : ∀ (ns : List ℕ) (t : CNetVarList), t.bindings.scheduleCheck = none → key ∈ t.base.data →
      ((ns.map (.listener evt)).foldl (visit ctx key) t).base = t.base ∧
        ((ns.map (.listener evt)).foldl (visit ctx key) t).bindings.queuedEvents =
          t.bindings.queuedEvents := by
    intro ns
    induction ns with
    | nil => exact fun t _ _ => ⟨rfl, rfl⟩
    | cons n ns ih =>
      intro t ht hkey
      have hsame : (t.invoke ctx (.listener evt n) key).base = t.base :=
        NetVarList.subscript_of_mem hkey
      rw [List.map_cons, List.foldl_cons, hvisit t _ ht]
      obtain ⟨hbase, hqueued⟩ := ih (t.invoke ctx (.listener evt n) key) ht (by rwa [hsame])
      exact ⟨hbase.trans hsame, hqueued⟩
  have hkey : key ∈ (evt.relay ctx key s.base).data :=
    (NetVarList.mem_data_of_bare (NetVarList.bare_eventRelay ctx key evt s.base)).mpr
      (NetVarList.mem_subscript key s.base)
  rw [dispatch, ListBindings.callbacks, List.foldl_cons, hvisit s _ h]
  exact hrest _ _ h hkey

/-- **Without a `ScheduleCheck` the callbacks of the application leave the list to itself.** -/
theorem base_onRemote_unscheduled (h : s.bindings.scheduleCheck = none) (ctx : ListContext)
    (msg : ListMsg) : (s.onRemote ctx msg).base = s.base.onRemote ctx msg := by
  cases msg with
  | add m =>
    show (s.onRemoteAdd ctx m).base = s.base.onRemoteAdd ctx m
    unfold onRemoteAdd NetVarList.onRemoteAdd
    split_ifs
    · exact (dispatch_unscheduled (s := ⟨(s.base.subscript m.key).overwrite m.key m.value, s.bindings⟩)
        h ctx .add m.key).1
    · rfl
  | update m =>
    show (s.onRemoteUpdate ctx m).base = s.base.onRemoteUpdate ctx m
    unfold onRemoteUpdate NetVarList.onRemoteUpdate
    split_ifs
    · exact (dispatch_unscheduled (s := ⟨s.base.overwrite m.key m.value, s.bindings⟩)
        h ctx .update m.key).1
    · rfl
  | remove m =>
    have hdispatch : (s.dispatch ctx .remove m.key).base = s.base.dispatchRemove ctx m.key :=
      (dispatch_unscheduled h ctx .remove m.key).1
    exact congrArg (fun l : NetVarList => { l with data := l.data.erase m.key }) hdispatch

/-! ### Making up for calls -/

theorem mem_invoke (ctx : ListContext) (dest : ListCallback) {k : UInt32} :
    k ∈ (s.invoke ctx dest key).base.data ↔ k = key ∨ k ∈ s.base.data := by
  rw [NetVarList.mem_data_of_bare (bare_invoke ctx dest key s)]
  show k ∈ (if key ∈ s.base.data then s.base.data else s.base.data.insert key s.base.initial) ↔ _
  by_cases h : key ∈ s.base.data
  · rw [if_pos h]
    exact ⟨Or.inr, fun hk => hk.elim (fun e => e ▸ h) id⟩
  · rw [if_neg h]
    exact AList.mem_insert _

theorem mem_foldl_invoke (ctx : ListContext) (events : List QueuedEvent) (s : CNetVarList) {k : UInt32} :
    k ∈ (events.foldl (fun s e => s.invoke ctx e.dest e.key) s).base.data ↔
      (∃ e ∈ events, k = e.key) ∨ k ∈ s.base.data := by
  induction events generalizing s with
  | nil => exact ⟨Or.inr, fun hk => hk.resolve_left (by simp)⟩
  | cons e events ih =>
    rw [List.foldl_cons, ih, mem_invoke]
    simp [or_assoc, or_left_comm]

theorem bare_foldl_invoke (ctx : ListContext) {events : List QueuedEvent} {s : CNetVarList}
    (h : ∀ e ∈ events, e.key ∈ s.base.data) :
    (events.foldl (fun s e => s.invoke ctx e.dest e.key) s).base.bare = s.base.bare := by
  induction events generalizing s with
  | nil => rfl
  | cons e events ih =>
    have hkey := h e List.mem_cons_self
    have hfirst : (s.invoke ctx e.dest e.key).base.bare = s.base.bare := by
      rw [bare_invoke, NetVarList.subscript_of_mem hkey]
    rw [List.foldl_cons, ih, hfirst]
    intro e' he'
    exact (NetVarList.mem_data_of_bare hfirst).mpr (h e' (List.mem_cons_of_mem _ he'))

theorem think_idle (h : s.delivers = false) (ctx : ListContext) : (s.think ctx).base = s.base := by
  unfold delivers at h
  unfold think
  cases hcheck : s.bindings.scheduleCheck with
  | none => rfl
  | some answer =>
    rw [hcheck] at h
    dsimp only at h ⊢
    rw [h]
    rfl

theorem think_delivers (h : s.delivers = true) (ctx : ListContext) :
    ∃ bindings, s.think ctx =
      s.bindings.queuedEvents.foldl (fun s e => s.invoke ctx e.dest e.key) ⟨s.base, bindings⟩ := by
  unfold delivers at h
  unfold think
  cases hcheck : s.bindings.scheduleCheck with
  | none => simp [hcheck] at h
  | some answer =>
    rw [hcheck] at h
    dsimp only at h ⊢
    exact ⟨_, if_pos h⟩

end CNetVarList

/-! ## Runs -/

/-- A message, a call of the application, or a `think`. -/
inductive EventAct (size : ℕ) where
  | remote (msg : ListMsg)
  | call (op : ListOp size)
  | think
  deriving DecidableEq, Repr

/-- A list, and what the operations alone leave. -/
structure EventRun where
  list : CNetVarList
  alone : NetVarList

namespace EventRun

variable {size : ℕ}

/-- What the list reads from its parent may change from step to step. -/
def step (s : EventRun) : ListContext × EventAct size → EventRun
  | (ctx, .remote msg) => ⟨s.list.onRemote ctx msg, s.alone.onRemote ctx msg⟩
  | (ctx, .call op) => ⟨{ s.list with base := s.list.base.call ctx op }, s.alone.call ctx op⟩
  | (ctx, .think) => ⟨s.list.think ctx, s.alone⟩

/-- **The law of deferred events.** The list has the elements that the operations alone leave. -/
def Unaltered (s : EventRun) : Prop := ∀ k, s.list.base.find k = s.alone.find k

/-- When calls are made up for, their keys are there. -/
def KeysRemain (s : EventRun) : ListContext × EventAct size → Prop
  | (_, .think) => s.list.delivers = true → ∀ e ∈ s.list.bindings.queuedEvents, e.key ∈ s.list.base.data
  | _ => True

variable {s : EventRun}

theorem bare_step (h : s.list.base.bare = s.alone.bare) {a : ListContext × EventAct size}
    (hok : s.KeysRemain a) : (s.step a).list.base.bare = (s.step a).alone.bare := by
  obtain ⟨ctx, a⟩ := a
  cases a with
  | remote msg =>
    calc (s.list.onRemote ctx msg).base.bare
        = (s.list.base.bare.onRemote ctx msg).bare := by
          rw [CNetVarList.bare_onRemote, NetVarList.bare_onRemote]
      _ = (s.alone.onRemote ctx msg).bare := by rw [h, ← NetVarList.bare_onRemote]
  | call op =>
    calc (s.list.base.call ctx op).bare
        = (s.list.base.bare.call ctx op).bare := NetVarList.bare_call ctx op _
      _ = (s.alone.call ctx op).bare := by rw [h, ← NetVarList.bare_call]
  | think =>
    refine Eq.trans ?_ h
    cases hd : s.list.delivers with
    | false => exact congrArg NetVarList.bare (CNetVarList.think_idle hd ctx)
    | true =>
      obtain ⟨bindings, hthink⟩ := CNetVarList.think_delivers hd ctx
      show (s.list.think ctx).base.bare = _
      rw [hthink]
      exact CNetVarList.bare_foldl_invoke ctx (hok hd)

/-- Making up for a call whose key is gone puts the key back. -/
theorem not_unaltered_of_gone (h : s.list.base.bare = s.alone.bare) {a : ListContext × EventAct size}
    (hbad : ¬ s.KeysRemain a) : ¬ (s.step a).Unaltered := by
  obtain ⟨ctx, a⟩ := a
  cases a with
  | remote msg => exact absurd trivial hbad
  | call op => exact absurd trivial hbad
  | think =>
    obtain ⟨hd, hkeys⟩ := Classical.not_imp.mp hbad
    push Not at hkeys
    obtain ⟨e, he, hgone⟩ := hkeys
    obtain ⟨bindings, hthink⟩ := CNetVarList.think_delivers hd ctx
    intro hsame
    have hback : e.key ∈ (s.list.think ctx).base.data := by
      rw [hthink, CNetVarList.mem_foldl_invoke]
      exact Or.inl ⟨e, he, rfl⟩
    rw [NetVarList.mem_data_iff, show (s.list.think ctx).base.find e.key = s.alone.find e.key from
      hsame e.key, ← NetVarList.find_of_bare h, ← NetVarList.mem_data_iff] at hback
    exact hgone hback

/-- **Deferred events leave the elements alone exactly as long as no call is made up for whose key is
gone.** -/
theorem deferred_iff (l : CNetVarList) (acts : List (ListContext × EventAct l.base.size)) :
    (∀ n, (run step ⟨l, l.base⟩ (acts.take n)).Unaltered) ↔ Along step KeysRemain ⟨l, l.base⟩ acts :=
  forall_run_iff_along (I := fun s : EventRun => s.list.base.bare = s.alone.bare) (P := Unaltered)
    (fun _ h => NetVarList.find_of_bare h) (fun _ _ h hok => bare_step h hok)
    (fun _ _ h hbad => not_unaltered_of_gone h hbad) rfl acts

/-- A `ScheduleCheck` that puts the first call off. -/
def patientList : CNetVarList where
  base := emptyList
  bindings := { scheduleCheck := some fun n => n != 0 }

/-- The relay of a removal is put off, and made up for. -/
def deferredRemoval : List (ListContext × EventAct patientList.base.size) :=
  [(editedContext, .call (.create 5 (Vector.replicate 1 3))),
    (editedContext, .remote (.remove ⟨editedContext.object, 5, 0⟩)), (editedContext, .think)]

/-- The removed key comes back. -/
theorem not_unaltered_removal : ¬ ∀ l : CNetVarList, l.bindings.scheduleCheck.isSome →
    ∀ (acts : List (ListContext × EventAct l.base.size)) (n : ℕ),
      (run step ⟨l, l.base⟩ (acts.take n)).Unaltered := by
  intro h
  have hback := h patientList rfl deferredRemoval 3 5
  exact absurd hback (by decide)

end EventRun

end Nettik
