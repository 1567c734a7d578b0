import Nettik.World.ListOps

/-!
# Updates of the objects

A tick walks the objects twice: `SnapshotUpdate` and `ControllerUpdate` both end with the `DoPostUpdate`
of every instance.

* `NetworkCall`: a call of `NetworkUpdate`; `postUpdate`, `doPostUpdate`: the loops that make them;
* `Ticking`: a running system; `Tick`: what its environment does in a call of `Update`;
* **`elapsedOf_update`**: what an object gets in a call; **`oncePerTick_iff`**: when that is once.
-/

namespace Nettik

open ByteMem Loops

variable {τ : Type}

/-! ## The walk over the objects -/

/-- `τ` is the type of times. -/
structure ReplicationInfo (τ : Type) where
  broadcast : Bool
  replicate : Bool
  elapsedTime : τ
  deriving DecidableEq, Repr

def ReplicationInfo.new (server : Bool) (peer : Option Peer) (controller : UInt32) (elapsedTime : τ) :
    ReplicationInfo τ where
  broadcast := (server && peer.isNone) || (!server && controller == netControllerLocal)
  replicate := (server && peer.isSome) || (!server && controller != netControllerLocal)
  elapsedTime := elapsedTime

structure NetworkCall (τ : Type) where
  object : ObjRef
  info : ReplicationInfo τ
  deriving DecidableEq, Repr

/-- A server erases the objects that nobody else holds; the others are updated. -/
def updateObjects (server : Bool) (elapsedTime : τ) (loose : ObjRef → Bool) :
    List NetObject → List NetObject × List (NetworkCall τ)
  | [] => ([], [])
  | o :: os =>
    let info := ReplicationInfo.new server o.peer o.controller elapsedTime
    let rest := updateObjects server elapsedTime loose os
    if loose o.handle && server then rest else (o :: rest.1, ⟨o.handle, info⟩ :: rest.2)

def CEntities.postUpdate (s : NetSystem) (elapsedTime : τ) (loose : ObjRef → Bool) (m : CEntities) :
    CEntities × List (NetworkCall τ) :=
  if !s.running then (m, [])
  else
    let r := updateObjects s.server elapsedTime loose m.objects
    ({ m with objects := r.1 }, r.2)

namespace VirtualInstance

/-- The packets the lists send are left out. -/
def doListUpdate (s : NetSystem) (i : VirtualInstance) : VirtualInstance :=
  let update (m : CEntities) (o : NetObject) : NetObject :=
    { o with lists := o.lists.map fun l => (l.updateListDelta m.getPlayers s.getFirstPeer).1 }
  { i with managers := i.managers.map fun m => { m with objects := m.objects.map (update m) } }

/-- `deletes` names the managers in `m_PendingDeletes`, each with its instance. -/
def doPostUpdate (s : NetSystem) (deletes : List (Bytes × Bytes)) (elapsedTime : τ)
    (loose : ObjRef → Bool) (i : VirtualInstance) : VirtualInstance × List (NetworkCall τ) :=
  let i := i.doListUpdate s
  let managers := i.managers.filter fun m => (i.name, m.name) ∉ deletes
  let r := managers.map (CEntities.postUpdate s elapsedTime loose)
  ({ i with managers := r.map Prod.fst }, r.flatMap Prod.snd)

def registered (i : VirtualInstance) : List ObjRef :=
  i.managers.flatMap fun m => m.objects.map NetObject.handle

end VirtualInstance

namespace NetSystem

/-- The loop over the instances. -/
def doPostUpdates (deletes : List (Bytes × Bytes)) (elapsedTime : τ) (loose : ObjRef → Bool)
    (s : NetSystem) : NetSystem × List (NetworkCall τ) :=
  let r := s.instances.map (VirtualInstance.doPostUpdate s deletes elapsedTime loose)
  ({ s with instances := r.map Prod.fst }, r.flatMap Prod.snd)

def registered (s : NetSystem) : List ObjRef := s.instances.flatMap VirtualInstance.registered

end NetSystem

/-! ## Ticks -/

/-- A running server or client, and the managers that wait to be deleted. -/
structure Ticking where
  system : NetSystem
  running : system.running = true
  pendingDeletes : List (Bytes × Bytes) := []

/-- When the application is called, or has time of its own. -/
inductive AppTurn where
  | idle
  | afterSnapshot
  | afterController
  deriving DecidableEq, Repr

/-- A call of `Update`. `loose` says for both walks which objects nobody else holds when the walk comes
to them; `app` what the application makes of the instances and of the pending deletions: before the
call, and in its two calls of `PostUpdate`. -/
structure Tick (τ : Type) where
  elapsed : τ
  loose : Bool → ObjRef → Bool
  app : AppTurn → Ticking → List VirtualInstance × List (Bytes × Bytes)

namespace Tick

variable (k : Tick τ) (w : Ticking)

def turn (t : AppTurn) : Ticking where
  system := { w.system with instances := (k.app t w).1 }
  running := w.running
  pendingDeletes := (k.app t w).2

/-- `SnapshotUpdate` up to the application. -/
def snapshotUpdate : Ticking × List (NetworkCall τ) :=
  let r := w.system.snapshotUpdate.1.doPostUpdates w.pendingDeletes k.elapsed (k.loose false)
  (⟨r.1, w.running, []⟩, r.2)

/-- `ControllerUpdate` up to the application. -/
def controllerUpdate : Ticking × List (NetworkCall τ) :=
  let r := w.system.doPostUpdates w.pendingDeletes k.elapsed (k.loose true)
  (⟨r.1, w.running, []⟩, r.2)

def update : Ticking × List (NetworkCall τ) :=
  if !w.system.running then (w, [])
  else
    let snapshot := k.snapshotUpdate w
    let controller := k.controllerUpdate (k.turn snapshot.1 .afterSnapshot)
    (k.turn controller.1 .afterController, snapshot.2 ++ controller.2)

/-- The states of a call: before it, around the two calls of the application, and after it. -/
def moments : List Ticking :=
  let snapshot := k.snapshotUpdate w
  let between := k.turn snapshot.1 .afterSnapshot
  let controller := k.controllerUpdate between
  [w, snapshot.1, between, controller.1, k.turn controller.1 .afterController]

/-- An object is registered, in one place, during the whole call. -/
def Stays (o : ObjRef) : Prop := ∀ v ∈ k.moments w, v.system.registered.count o = 1

end Tick

/-- The times an object got in the calls. -/
def elapsedOf (o : ObjRef) (calls : List (NetworkCall τ)) : List τ :=
  (calls.filter (·.object == o)).map (·.info.elapsedTime)

/-- The calls of `Update` in a run, each with the state it begins in. -/
def visited : List (Tick τ) → Ticking → List (Tick τ × Ticking)
  | [], _ => []
  | k :: ks, w => (k, k.turn w .idle) :: visited ks (k.update (k.turn w .idle)).1

/-- **The law of the updates.** In every call of a run an object that stays gets the time that passed,
once; the times an object gets that stays all along add up to the time of the run. -/
structure OncePerTick [AddMonoid τ] (ks : List (Tick τ)) (w : Ticking) : Prop where
  once : ∀ x ∈ visited ks w, ∀ o, x.1.Stays x.2 o →
    elapsedOf o (x.1.update x.2).2 = [x.1.elapsed]
  total : ∀ o, (∀ x ∈ visited ks w, x.1.Stays x.2 o) →
    ((visited ks w).flatMap fun x => elapsedOf o (x.1.update x.2).2).sum = (ks.map Tick.elapsed).sum

/-! ## What an object gets -/

theorem map_object_updateObjects (server : Bool) (t : τ) (loose : ObjRef → Bool) (os : List NetObject) :
    (updateObjects server t loose os).2.map NetworkCall.object =
      (updateObjects server t loose os).1.map NetObject.handle ∧
    ∀ c ∈ (updateObjects server t loose os).2, c.info.elapsedTime = t := by
  induction os with
  | nil => exact ⟨rfl, by simp [updateObjects]⟩
  | cons o os ih =>
    rw [updateObjects]
    split_ifs
    · exact ih
    · refine ⟨?_, ?_⟩
      · rw [List.map_cons, List.map_cons, ih.1]
      · intro c hc
        rcases List.mem_cons.mp hc with rfl | hc
        · rfl
        · exact ih.2 c hc

/-- **A walk calls the objects it leaves registered**, each with the time. -/
theorem map_object_doPostUpdates {s : NetSystem} (hrun : s.running = true)
    (deletes : List (Bytes × Bytes)) (t : τ) (loose : ObjRef → Bool) :
    (s.doPostUpdates deletes t loose).2.map NetworkCall.object =
      (s.doPostUpdates deletes t loose).1.registered ∧
    ∀ c ∈ (s.doPostUpdates deletes t loose).2, c.info.elapsedTime = t := by
  have hmanager : ∀ m : CEntities, m.postUpdate s t loose =
      ({ m with objects := (updateObjects s.server t loose m.objects).1 },
        (updateObjects s.server t loose m.objects).2) := by
    intro m
    rw [CEntities.postUpdate, if_neg (by simp [hrun])]
  constructor
  · simp only [NetSystem.doPostUpdates, NetSystem.registered, VirtualInstance.doPostUpdate,
      VirtualInstance.registered, List.map_flatMap, List.flatMap_map, hmanager,
      map_object_updateObjects]
  · intro c hc
    simp only [NetSystem.doPostUpdates, VirtualInstance.doPostUpdate, List.flatMap_map,
      List.mem_flatMap, hmanager] at hc
    obtain ⟨i, -, m, -, hc⟩ := hc
    exact (map_object_updateObjects _ _ _ _).2 c hc

theorem elapsedOf_append (o : ObjRef) (cs cs' : List (NetworkCall τ)) :
    elapsedOf o (cs ++ cs') = elapsedOf o cs ++ elapsedOf o cs' := by
  simp only [elapsedOf, List.filter_append, List.map_append]

/-- What a walk gives an object is the time, as often as the object is registered after it. -/
theorem elapsedOf_eq_replicate {cs : List (NetworkCall τ)} {os : List ObjRef} {t : τ}
    (hos : cs.map NetworkCall.object = os) (ht : ∀ c ∈ cs, c.info.elapsedTime = t) (o : ObjRef) :
    elapsedOf o cs = List.replicate (os.count o) t := by
  refine List.eq_replicate_iff.mpr ⟨?_, ?_⟩
  · rw [elapsedOf, List.length_map, ← hos, List.count_eq_countP, List.countP_map,
      List.countP_eq_length_filter]
    rfl
  · intro b hb
    obtain ⟨c, hc, rfl⟩ := List.mem_map.mp hb
    exact ht c (List.mem_filter.mp hc).1

namespace Tick

variable {k : Tick τ} {w : Ticking} {o : ObjRef}

/-- **An object that stays gets the time twice.** -/
theorem elapsedOf_update (h : k.Stays w o) :
    elapsedOf o (k.update w).2 = [k.elapsed, k.elapsed] := by
  have hupdate : (k.update w).2 = (k.snapshotUpdate w).2 ++
      (k.controllerUpdate (k.turn (k.snapshotUpdate w).1 .afterSnapshot)).2 := by
    rw [update, if_neg (by simp [w.running])]
  have hfirst := map_object_doPostUpdates (s := w.system.snapshotUpdate.1) w.running w.pendingDeletes
    k.elapsed (k.loose false)
  have hsecond := map_object_doPostUpdates (k.turn (k.snapshotUpdate w).1 .afterSnapshot).running
    (k.turn (k.snapshotUpdate w).1 .afterSnapshot).pendingDeletes k.elapsed (k.loose true)
  have hone : (k.snapshotUpdate w).1.system.registered.count o = 1 := h _ (by simp [moments])
  have hother : (k.controllerUpdate (k.turn (k.snapshotUpdate w).1
      .afterSnapshot)).1.system.registered.count o = 1 := h _ (by simp [moments])
  rw [hupdate, elapsedOf_append]
  have h₁ : elapsedOf o (k.snapshotUpdate w).2 = List.replicate 1 k.elapsed :=
    hone ▸ elapsedOf_eq_replicate hfirst.1 hfirst.2 o
  have h₂ : elapsedOf o (k.controllerUpdate (k.turn (k.snapshotUpdate w).1 .afterSnapshot)).2 =
      List.replicate 1 k.elapsed := hother ▸ elapsedOf_eq_replicate hsecond.1 hsecond.2 o
  rw [h₁, h₂]
  rfl

end Tick

/-- **When every object that stays is updated once**: when there is none. -/
theorem oncePerTick_iff [AddMonoid τ] (ks : List (Tick τ)) (w : Ticking) :
    OncePerTick ks w ↔ ∀ x ∈ visited ks w, ∀ o, ¬ x.1.Stays x.2 o := by
  constructor
  · intro h x hx o hstays
    have hone := h.once x hx o hstays
    rw [Tick.elapsedOf_update hstays] at hone
    exact absurd (congrArg List.length hone) (by simp)
  · intro h
    refine ⟨fun x hx o hstays => absurd hstays (h x hx o), fun o hall => ?_⟩
    cases ks with
    | nil => rfl
    | cons k ks => exact absurd (hall _ List.mem_cons_self) (h _ List.mem_cons_self o)

/-- A server with one object, and an application that does nothing. -/
def quietTicking : Ticking where
  system :=
    { server := true
      instances := [{ name := [119], managers := [{
        name := [112], name_le := CEntities.p_le, cls := .bare,
        objects := [{ ref := 0, netID := 0, controller := netControllerLocal }] }] }] }
  running := rfl

def quietTick : Tick ℕ where
  elapsed := 16
  loose _ _ := false
  app _ w := (w.system.instances, w.pendingDeletes)

theorem not_oncePerTick_quiet : ¬ ∀ (ks : List (Tick ℕ)) (w : Ticking), OncePerTick ks w := by
  intro h
  have hstays : quietTick.Stays quietTicking ⟨0, 0⟩ := by
    simp only [Tick.Stays, Tick.moments]
    decide
  have hone := (h [quietTick] quietTicking).once (quietTick, quietTicking) List.mem_cons_self _ hstays
  rw [Tick.elapsedOf_update hstays] at hone
  exact absurd hone (by decide)

end Nettik
