import Nettik.Entity.Roll
import Nettik.Lib.Links

/-!
# The containers of a client

A client holds an object in the list of its manager, and one it owns also in the manager's second list
and in `m_ControlledObjects`.

* `Consistent`: the second list and the map hold the `LOCAL` objects of the first lists and no others;
* `OneHome`: frames with the same net id name the same manager;
* `Registered`: the invariant of runs of such frames; **`registries_consistent`**.
-/

namespace Nettik

open ByteMem Loops Links

namespace NetSystem

/-! ## The containers -/

/-- The managers of all instances. -/
def managers (s : NetSystem) : List CEntities := s.instances.flatMap VirtualInstance.managers

/-- The containers agree. -/
structure Consistent (s : NetSystem) : Prop where
  distinct : ∀ m ∈ s.managers, (m.objects.map NetObject.netID).Nodup
  locals : ∀ m ∈ s.managers,
    m.objectsLocal = (m.objects.filter NetObject.isNetworkLocal).map NetObject.handle
  controlled : ∀ id h, s.controlledObjects.lookup id = some h ↔
    ∃ m ∈ s.managers, ∃ o ∈ m.objects, o.isNetworkLocal = true ∧ o.netID = id ∧ o.handle = h

/-- No container holds an object. -/
structure Vacant (s : NetSystem) : Prop where
  objects : ∀ m ∈ s.managers, m.objects = []
  locals : ∀ m ∈ s.managers, m.objectsLocal = []
  controlled : s.controlledObjects = ∅

/-- A creation or a deletion in a manager the client knows. -/
def Places (f : Frame) (s : NetSystem) : Prop :=
  (f.frameType = kFrameAlloc ∨ f.frameType = kFrameDealloc) ∧
    (s.managerOf f.dataStr f.name).isSome = true

/-- A net id is used with one manager only. -/
def OneHome (frames : List Frame) (s : NetSystem) : Prop :=
  ∀ f ∈ frames, ∀ g ∈ frames, s.Places f → s.Places g → f.netID = g.netID →
    f.dataStr = g.dataStr ∧ f.name = g.name

instance (f : Frame) (s : NetSystem) : Decidable (s.Places f) := by
  unfold Places
  infer_instance

instance (frames : List Frame) (s : NetSystem) : Decidable (s.OneHome frames) := by
  unfold OneHome
  infer_instance

/-- A client processes a frame; an exception keeps what was done before it. -/
def process (s : NetSystem) (f : Frame) : NetSystem := (s.actServer f).2

/-! ## One manager -/

variable {s : NetSystem}

theorem objects_eq_flatMap : s.objects = s.managers.flatMap CEntities.objects := by
  rw [objects, managers, List.flatMap_assoc]
  rfl

theorem mem_objects {o : NetObject} : o ∈ s.objects ↔ ∃ m ∈ s.managers, o ∈ m.objects := by
  rw [objects_eq_flatMap, List.mem_flatMap]

theorem managerOf_eq_some {a b : Bytes} {m : CEntities} :
    s.managerOf a b = some m ↔ ∃ i, s.getInstance a = some i ∧ i.getManager b = some m :=
  Option.bind_eq_some_iff

/-- A manager that is found by its names, among the others, and an update of it. -/
theorem managers_modifyManager {a b : Bytes} {m : CEntities} (hm : s.managerOf a b = some m) :
    ∃ before after, s.managers = before ++ m :: after ∧
      ∀ f, (s.modifyInstance a (·.modifyManager b f)).managers = before ++ f m :: after := by
  obtain ⟨i, hi, hm⟩ := managerOf_eq_some.mp hm
  obtain ⟨is, is', hs, hmodify⟩ := modifyFirst_append hi
  obtain ⟨ms, ms', hmanagers, hmodify'⟩ := modifyFirst_append hm
  refine ⟨is.flatMap VirtualInstance.managers ++ ms, ms' ++ is'.flatMap VirtualInstance.managers, ?_,
    fun f => ?_⟩
  · rw [managers, hs, List.flatMap_append, List.flatMap_cons, hmanagers]
    simp
  · rw [managers, modifyInstance, hmodify, List.flatMap_append, List.flatMap_cons,
      VirtualInstance.modifyManager, hmodify']
    simp

theorem managerOf_modify {a b : Bytes} {f : CEntities → CEntities} (hf : ∀ m, (f m).name = m.name)
    (a' b' : Bytes) : (s.modifyInstance a (·.modifyManager b f)).managerOf a' b' =
      if a' = a ∧ b' = b then (s.managerOf a b).map f else s.managerOf a' b' := by
  by_cases ha : a' = a
  · subst ha
    rw [managerOf_modifyManager hf]
    simp
  · rw [if_neg fun h => ha h.1]
    have hinst : (s.modifyInstance a (·.modifyManager b f)).getInstance a' = s.getInstance a' := by
      refine find?_modifyFirst_of_disjoint (by intro i; rfl) (fun i hi => ?_) s.instances
      rw [beq_iff_eq.mp hi, beq_eq_false_iff_ne]
      exact fun e => ha e.symm
    rw [managerOf, hinst]
    rfl

/-- The manager found by its names is `m` before and `m'` after; the others are the same. -/
structure Replaced (a b : Bytes) (m m' : CEntities) (s s' : NetSystem) : Prop where
  found : s.managerOf a b = some m
  finds : ∀ a' b', s'.managerOf a' b' = if a' = a ∧ b' = b then some m' else s.managerOf a' b'
  split : ∃ before after, s.managers = before ++ m :: after ∧ s'.managers = before ++ m' :: after

theorem replaced_modify {a b : Bytes} {m : CEntities} (hm : s.managerOf a b = some m)
    {f : CEntities → CEntities} (hf : ∀ m, (f m).name = m.name) {s' : NetSystem}
    (hs' : s'.instances = (s.modifyInstance a (·.modifyManager b f)).instances) :
    Replaced a b m (f m) s s' := by
  obtain ⟨before, after, hs, hmodify⟩ := managers_modifyManager hm
  refine ⟨hm, fun a' b' => ?_, before, after, hs, ?_⟩
  · have hfind := managerOf_modify (s := s) (a := a) (b := b) hf a' b'
    rw [hm] at hfind
    rw [managerOf, getInstance, hs']
    exact hfind
  · rw [managers, hs']
    exact hmodify f

namespace Replaced

variable {a b : Bytes} {m m' : CEntities} {s' : NetSystem}

theorem isSome_managerOf (h : Replaced a b m m' s s') (a' b' : Bytes) :
    (s'.managerOf a' b').isSome = (s.managerOf a' b').isSome := by
  rw [h.finds]
  split_ifs with hab
  · rw [hab.1, hab.2, h.found]
    rfl
  · rfl

theorem mem_managers (h : Replaced a b m m' s s') {k : CEntities} (hk : k ∈ s'.managers) :
    k = m' ∨ k ∈ s.managers := by
  obtain ⟨before, after, hs, hs'⟩ := h.split
  rw [hs', List.mem_append, List.mem_cons] at hk
  rw [hs, List.mem_append, List.mem_cons]
  rcases hk with hk | rfl | hk
  · exact Or.inr (Or.inl hk)
  · exact Or.inl rfl
  · exact Or.inr (Or.inr (Or.inr hk))

theorem objects (h : Replaced a b m m' s s') : ∃ xs ys, s.objects = xs ++ (m.objects ++ ys) ∧
    s'.objects = xs ++ (m'.objects ++ ys) := by
  obtain ⟨before, after, hs, hs'⟩ := h.split
  refine ⟨before.flatMap CEntities.objects, after.flatMap CEntities.objects, ?_, ?_⟩
  · rw [objects_eq_flatMap, hs, List.flatMap_append, List.flatMap_cons]
  · rw [objects_eq_flatMap, hs', List.flatMap_append, List.flatMap_cons]

theorem mem (h : Replaced a b m m' s s') : m ∈ s.managers := by
  obtain ⟨before, after, hs, -⟩ := h.split
  rw [hs]
  exact List.mem_append_right _ List.mem_cons_self

end Replaced

end NetSystem

/-! ## The invariant -/

theorem unique_netID {l : List NetObject} (h : (l.map NetObject.netID).Nodup) (id : UInt32) :
    l.Pairwise fun a b => (a.netID == id) = true → (b.netID == id) = false := by
  refine (List.pairwise_map.mp h).imp fun hne ha => ?_
  rw [beq_eq_false_iff_ne]
  exact fun hb => hne ((beq_iff_eq.mp ha).trans hb.symm)

/-- The objects that stay when those of a net id are freed. -/
theorem CEntities.objects_freeLocal {m : CEntities} (h : (m.objects.map NetObject.netID).Nodup)
    (id : UInt32) : (m.freeLocal id).objects = m.objects.filter fun o => !(o.netID == id) :=
  eraseP_eq_filter (unique_netID h id)

/-- Freeing keeps the second list in step with the first. -/
theorem CEntities.locals_freeLocal {m : CEntities} (h : (m.objects.map NetObject.netID).Nodup)
    (hlocals : m.objectsLocal = (m.objects.filter NetObject.isNetworkLocal).map NetObject.handle)
    (id : UInt32) : (m.freeLocal id).objectsLocal =
      ((m.freeLocal id).objects.filter NetObject.isNetworkLocal).map NetObject.handle := by
  have herase : (m.objects.filter NetObject.isNetworkLocal).eraseP (·.netID == id) =
      (m.objects.filter NetObject.isNetworkLocal).filter fun o => !(o.netID == id) :=
    eraseP_eq_filter ((unique_netID h id).filter _)
  rw [objects_freeLocal h]
  show m.objectsLocal.eraseP (·.netID == id) = _
  rw [hlocals, List.eraseP_map]
  show ((m.objects.filter NetObject.isNetworkLocal).eraseP (·.netID == id)).map _ = _
  rw [herase, List.filter_filter, List.filter_filter]
  simp only [Bool.and_comm]

/-- Some frame placed the object in the manager that holds it. -/
def AtHome (s₀ : NetSystem) (frames : List Frame) (c : NetSystem) (o : NetObject) : Prop :=
  ∃ f ∈ frames, s₀.Places f ∧ f.netID = o.netID ∧
    ∃ m, c.managerOf f.dataStr f.name = some m ∧ o ∈ m.objects

theorem AtHome.replaced {s₀ c c' : NetSystem} {frames : List Frame} {o : NetObject}
    (h : AtHome s₀ frames c o) {a b : Bytes} {m m' : CEntities} (hr : c.Replaced a b m m' c')
    (hkeep : o ∈ m.objects → o ∈ m'.objects) : AtHome s₀ frames c' o := by
  obtain ⟨f, hf, hplaces, hid, k, hk, ho⟩ := h
  refine ⟨f, hf, hplaces, hid, ?_⟩
  rw [hr.finds]
  split_ifs with hab
  · rw [hab.1, hab.2, hr.found] at hk
    rw [← Option.some.inj hk] at ho
    exact ⟨m', rfl, hkeep ho⟩
  · exact ⟨k, hk, ho⟩

/-- What holds of a client that started as `s₀` and processes some of `frames`. -/
structure Registered (s₀ : NetSystem) (frames : List Frame) (c : NetSystem) : Prop where
  known : ∀ a b, (c.managerOf a b).isSome = (s₀.managerOf a b).isSome
  distinct : (c.objects.map NetObject.netID).Nodup
  home : ∀ o ∈ c.objects, AtHome s₀ frames c o
  locals : ∀ m ∈ c.managers,
    m.objectsLocal = (m.objects.filter NetObject.isNetworkLocal).map NetObject.handle
  controlled : ∀ id h, c.controlledObjects.lookup id = some h ↔
    ∃ o ∈ c.objects, o.isNetworkLocal = true ∧ o.netID = id ∧ o.handle = h

/-- A manager lists its `LOCAL` objects in order, also after a creation. -/
theorem CEntities.locals_buildLocal {m : CEntities} {ref : ℕ} {netID controller : UInt32}
    (h : m.objectsLocal = (m.objects.filter NetObject.isNetworkLocal).map NetObject.handle) :
    (m.buildLocal ref netID controller).objectsLocal =
      ((m.buildLocal ref netID controller).objects.filter NetObject.isNetworkLocal).map
        NetObject.handle := by
  let o₁ : NetObject :=
    { ref := ref, netID := netID, controller := controller, vars := m.cls.vars, lists := m.cls.lists }
  show (if o₁.isNetworkLocal then m.objectsLocal ++ [o₁.handle] else m.objectsLocal) =
    ((m.objects ++ [o₁]).filter NetObject.isNetworkLocal).map NetObject.handle
  rw [List.filter_append, List.map_append, ← h]
  by_cases hlocal : o₁.isNetworkLocal = true
  · rw [if_pos hlocal, List.filter_cons_of_pos hlocal]
    rfl
  · rw [if_neg hlocal, List.filter_cons_of_neg hlocal]
    simp

namespace Registered

variable {s₀ c : NetSystem} {frames : List Frame} {f : Frame} {m : CEntities}

theorem consistent (h : Registered s₀ frames c) : c.Consistent where
  distinct m hm := by
    have hdistinct := h.distinct
    rw [NetSystem.objects_eq_flatMap, List.map_flatMap, List.nodup_flatMap] at hdistinct
    exact hdistinct.1 m hm
  locals := h.locals
  controlled id handle := by
    rw [h.controlled]
    constructor
    · rintro ⟨o, ho, hrest⟩
      obtain ⟨m, hm, ho⟩ := NetSystem.mem_objects.mp ho
      exact ⟨m, hm, o, ho, hrest⟩
    · rintro ⟨m, hm, o, ho, hrest⟩
      exact ⟨o, NetSystem.mem_objects.mpr ⟨m, hm, ho⟩, hrest⟩

/-- The manager a frame names holds every object with the net id of the frame. -/
theorem mem_home (h : Registered s₀ frames c) (hone : s₀.OneHome frames) (hf : f ∈ frames)
    (hplaces : s₀.Places f) (hm : c.managerOf f.dataStr f.name = some m) {o : NetObject}
    (ho : o ∈ c.objects) (hid : o.netID = f.netID) : o ∈ m.objects := by
  obtain ⟨g, hg, hplaces', hgid, m', hm', ho'⟩ := h.home o ho
  obtain ⟨hdata, hname⟩ := hone g hg f hf hplaces' hplaces (hgid.trans hid)
  rw [hdata, hname, hm] at hm'
  rwa [Option.some.inj hm']

/-! ### Creations -/

theorem lookup_eq_none (h : Registered s₀ frames c) {id : UInt32}
    (hfresh : ∀ o ∈ c.objects, o.netID ≠ id) : c.controlledObjects.lookup id = none := by
  rw [Option.eq_none_iff_forall_ne_some]
  intro handle hlookup
  obtain ⟨o, ho, -, hid, -⟩ := (h.controlled id handle).mp hlookup
  exact hfresh o ho hid

/-- The map after a creation under a net id that no object has. -/
theorem lookup_built (h : Registered s₀ frames c) (hfresh : ∀ o ∈ c.objects, o.netID ≠ f.netID)
    (handle : ObjRef) (k : UInt32) : (if f.controller = netControllerLocal then
      c.controlledObjects.insert f.netID handle else c.controlledObjects).lookup k =
        if k = f.netID then if f.controller = netControllerLocal then some handle else none
        else c.controlledObjects.lookup k := by
  by_cases hk : k = f.netID
  · rw [if_pos hk, hk]
    split_ifs
    · exact AList.lookup_insert _
    · exact h.lookup_eq_none hfresh
  · rw [if_neg hk]
    split_ifs
    · exact AList.lookup_insert_ne hk
    · rfl

/-- The new object is in the map exactly when it is `LOCAL`. -/
theorem controlled_built (h : Registered s₀ frames c) (hfresh : ∀ o ∈ c.objects, o.netID ≠ f.netID)
    (o₁ : NetObject) (hid₁ : o₁.netID = f.netID) (hcontroller : o₁.controller = f.controller)
    (id : UInt32) (handle : ObjRef) : (if f.controller = netControllerLocal then
      c.controlledObjects.insert f.netID o₁.handle else c.controlledObjects).lookup id = some handle ↔
        ∃ o, (o = o₁ ∨ o ∈ c.objects) ∧ o.isNetworkLocal = true ∧ o.netID = id ∧ o.handle = handle := by
  simp only [or_and_right, exists_or, exists_eq_left]
  rw [← h.controlled, h.lookup_built hfresh]
  by_cases hid : id = f.netID
  · subst hid
    rw [if_pos rfl, h.lookup_eq_none hfresh]
    simp only [reduceCtorEq, or_false]
    by_cases hlocal : f.controller = netControllerLocal
    · have ho₁ : o₁.isNetworkLocal = true := beq_iff_eq.mpr (hcontroller.trans hlocal)
      rw [if_pos hlocal]
      exact ⟨fun he => ⟨ho₁, hid₁, Option.some.inj he⟩, fun he => congrArg some he.2.2⟩
    · have ho₁ : ¬ o₁.isNetworkLocal = true :=
        fun e => hlocal (hcontroller.symm.trans (beq_iff_eq.mp e))
      rw [if_neg hlocal]
      simp [ho₁]
  · rw [if_neg hid]
    simp [hid₁, Ne.symm hid]

/-- A new object under a net id that no object has. -/
theorem build (h : Registered s₀ frames c) (hf : f ∈ frames) (hplaces : s₀.Places f)
    (hm : c.managerOf f.dataStr f.name = some m) (hfresh : ∀ o ∈ c.objects, o.netID ≠ f.netID) :
    Registered s₀ frames { c.modifyInstance f.dataStr (·.modifyManager f.name
        (CEntities.buildLocal c.nextRef f.netID f.controller)) with
      nextRef := c.nextRef + 1
      controlledObjects :=
        if f.controller = netControllerLocal then
          c.controlledObjects.insert f.netID ⟨c.nextRef, f.netID⟩
        else c.controlledObjects } := by
  set c' : NetSystem := { c.modifyInstance f.dataStr (·.modifyManager f.name
      (CEntities.buildLocal c.nextRef f.netID f.controller)) with
    nextRef := c.nextRef + 1
    controlledObjects :=
      if f.controller = netControllerLocal then c.controlledObjects.insert f.netID ⟨c.nextRef, f.netID⟩
      else c.controlledObjects } with hc'
  let o₁ : NetObject :=
    { ref := c.nextRef, netID := f.netID, controller := f.controller, vars := m.cls.vars,
      lists := m.cls.lists }
  let m₁ : CEntities := m.buildLocal c.nextRef f.netID f.controller
  have hr : c.Replaced f.dataStr f.name m m₁ c' :=
    NetSystem.replaced_modify (f := CEntities.buildLocal c.nextRef f.netID f.controller) hm
      (fun _ => rfl) rfl
  have hm₁ : m₁.objects = m.objects ++ [o₁] := rfl
  have hperm : c'.objects.Perm (o₁ :: c.objects) := by
    obtain ⟨xs, ys, hs, hs'⟩ := hr.objects
    have hmiddle : (xs ++ m.objects ++ o₁ :: ys).Perm (o₁ :: (xs ++ m.objects ++ ys)) :=
      List.perm_middle
    rw [hs, hs', hm₁]
    simpa using hmiddle
  have hmem : ∀ o, o ∈ c'.objects ↔ o = o₁ ∨ o ∈ c.objects := by
    intro o
    rw [hperm.mem_iff, List.mem_cons]
  refine ⟨fun a b => (hr.isSome_managerOf a b).trans (h.known a b), ?_, ?_, ?_, ?_⟩
  · rw [(hperm.map _).nodup_iff, List.map_cons, List.nodup_cons]
    refine ⟨fun hid => ?_, h.distinct⟩
    obtain ⟨o, ho, hid⟩ := List.mem_map.mp hid
    exact hfresh o ho hid
  · intro o ho
    rcases (hmem o).mp ho with rfl | ho
    · refine ⟨f, hf, hplaces, rfl, m₁, ?_, ?_⟩
      · rw [hr.finds, if_pos ⟨rfl, rfl⟩]
      · rw [hm₁]
        exact List.mem_append_right _ (List.mem_singleton_self _)
    · refine (h.home o ho).replaced hr fun hold => ?_
      rw [hm₁]
      exact List.mem_append_left _ hold
  · intro k hk
    rcases hr.mem_managers hk with rfl | hk
    · exact CEntities.locals_buildLocal (h.locals m hr.mem)
    · exact h.locals k hk
  · intro id handle
    simp only [hmem]
    exact h.controlled_built hfresh o₁ rfl rfl id handle

theorem alloc (h : Registered s₀ frames c) (hone : s₀.OneHome frames) (hf : f ∈ frames)
    (hkind : f.frameType = kFrameAlloc) : Registered s₀ frames (c.entAllocate f).2 := by
  cases hi : c.getInstance f.dataStr with
  | none =>
    rw [NetSystem.entAllocate, hi]
    exact h
  | some i =>
    cases hm : i.getManager f.name with
    | none =>
      rw [NetSystem.entAllocate, hi]
      simp only [hm]
      exact h
    | some m =>
      have hfound : c.managerOf f.dataStr f.name = some m :=
        NetSystem.managerOf_eq_some.mpr ⟨i, hi, hm⟩
      cases hnew : m.getByNetID f.netID with
      | some o =>
        -- a known net id is left as it is
        rw [NetSystem.entAllocate, hi]
        simp only [hm, hnew, Option.isNone_some, Bool.false_eq_true, if_false]
        exact h
      | none =>
        have hplaces : s₀.Places f := by
          refine ⟨Or.inl hkind, ?_⟩
          rw [← h.known, hfound]
          rfl
        rw [entAllocate_new hi hm hnew]
        refine h.build hf hplaces hfound fun o ho hid => ?_
        have hmem := h.mem_home hone hf hplaces hfound ho hid
        rw [CEntities.getByNetID, List.find?_eq_none] at hnew
        exact hnew o hmem (beq_iff_eq.mpr hid)

/-! ### Deletions -/

/-- With distinct net ids, the objects of a net id are those of the manager that frees it. -/
theorem mem_freed (h : Registered s₀ frames c) {a b : Bytes} {c' : NetSystem} {id : UInt32}
    (hr : c.Replaced a b m (m.freeLocal id) c') {object : NetObject} (hin : object ∈ m.objects)
    (hid : object.netID = id) (o : NetObject) : o ∈ c'.objects ↔ o ∈ c.objects ∧ o.netID ≠ id := by
  obtain ⟨xs, ys, hs, hs'⟩ := hr.objects
  have hobject : object.netID ∈ m.objects.map NetObject.netID := List.mem_map_of_mem hin
  have hdistinct := h.distinct
  rw [hs, List.map_append, List.map_append, List.nodup_append, List.nodup_append] at hdistinct
  obtain ⟨-, ⟨-, -, hafter⟩, hbefore⟩ := hdistinct
  rw [hs, hs', CEntities.objects_freeLocal (h.consistent.distinct m hr.mem)]
  simp only [List.mem_append, List.mem_filter, Bool.not_eq_true', beq_eq_false_iff_ne]
  constructor
  · rintro (ho | ⟨ho, hne⟩ | ho)
    · refine ⟨Or.inl ho, fun e => ?_⟩
      exact hbefore _ (List.mem_map_of_mem ho) _ (List.mem_append_left _ hobject) (e.trans hid.symm)
    · exact ⟨Or.inr (Or.inl ho), hne⟩
    · refine ⟨Or.inr (Or.inr ho), fun e => ?_⟩
      exact hafter _ hobject _ (List.mem_map_of_mem ho) (hid.trans e.symm)
  · rintro ⟨ho | ho | ho, hne⟩
    · exact Or.inl ho
    · exact Or.inr (Or.inl ⟨ho, hne⟩)
    · exact Or.inr (Or.inr ho)

/-- The map after a deletion: only the object itself can be in it under its net id. -/
theorem lookup_freed (h : Registered s₀ frames c) {object : NetObject} (hobject : object ∈ c.objects)
    (k : UInt32) : (if object.isNetworkLocal then c.controlledObjects.erase object.netID
      else c.controlledObjects).lookup k =
        if k = object.netID then none else c.controlledObjects.lookup k := by
  by_cases hk : k = object.netID
  · rw [if_pos hk, hk]
    split_ifs with hlocal
    · exact AList.lookup_erase _ _
    · rw [Option.eq_none_iff_forall_ne_some]
      intro handle hlookup
      obtain ⟨o, ho, ho', hid, -⟩ := (h.controlled _ handle).mp hlookup
      have hsame := List.inj_on_of_nodup_map h.distinct ho hobject hid
      exact hlocal (hsame ▸ ho')
  · rw [if_neg hk]
    split_ifs
    · exact AList.lookup_erase_ne hk
    · rfl

/-- The objects of a net id leave all containers. -/
theorem free (h : Registered s₀ frames c) {a b : Bytes} {m : CEntities} {id : UInt32}
    {object : NetObject} (hm : c.managerOf a b = some m) (hobject : m.getByNetID id = some object) :
    Registered s₀ frames { c.modifyInstance a (·.modifyManager b (CEntities.freeLocal id)) with
      controlledObjects :=
        if object.isNetworkLocal then c.controlledObjects.erase id else c.controlledObjects } := by
  set c' : NetSystem := { c.modifyInstance a (·.modifyManager b (CEntities.freeLocal id)) with
    controlledObjects :=
      if object.isNetworkLocal then c.controlledObjects.erase id else c.controlledObjects } with hc'
  have hr : c.Replaced a b m (m.freeLocal id) c' :=
    NetSystem.replaced_modify (f := CEntities.freeLocal id) hm (fun _ => rfl) rfl
  have hdistinct := h.consistent.distinct m hr.mem
  have hin : object ∈ m.objects := List.mem_of_find?_eq_some hobject
  have hid : object.netID = id := by
    have htest := List.find?_some (p := fun o : NetObject => o.netID == id) hobject
    exact beq_iff_eq.mp htest
  have hmem := h.mem_freed hr hin hid
  refine ⟨fun a' b' => (hr.isSome_managerOf a' b').trans (h.known a' b'), ?_, ?_, ?_, ?_⟩
  · obtain ⟨xs, ys, hs, hs'⟩ := hr.objects
    refine h.distinct.sublist (List.Sublist.map _ ?_)
    rw [hs, hs', CEntities.objects_freeLocal hdistinct]
    exact (List.Sublist.refl _).append (List.filter_sublist.append (List.Sublist.refl _))
  · intro o ho
    obtain ⟨hold, hne⟩ := (hmem o).mp ho
    refine (h.home o hold).replaced hr fun hm' => ?_
    rw [CEntities.objects_freeLocal hdistinct, List.mem_filter]
    exact ⟨hm', by simpa using hne⟩
  · intro k hk
    rcases hr.mem_managers hk with rfl | hk
    · exact CEntities.locals_freeLocal hdistinct (h.locals m hr.mem) id
    · exact h.locals k hk
  · intro k handle
    have hlookup := h.lookup_freed (NetSystem.mem_objects.mpr ⟨m, hr.mem, hin⟩) k
    rw [hid] at hlookup
    rw [hc', hlookup, ← hc']
    simp only [hmem]
    by_cases hk : k = id
    · rw [if_pos hk]
      constructor
      · intro he
        exact absurd he (by simp)
      · rintro ⟨o, ⟨-, hne⟩, -, he, -⟩
        exact absurd (he.trans hk) hne
    · rw [if_neg hk, h.controlled]
      constructor
      · rintro ⟨o, ho, hlocal, he, hrest⟩
        exact ⟨o, ⟨ho, he ▸ hk⟩, hlocal, he, hrest⟩
      · rintro ⟨o, ⟨ho, -⟩, hrest⟩
        exact ⟨o, ho, hrest⟩

theorem dealloc (h : Registered s₀ frames c) : Registered s₀ frames (c.entDeallocate f).2 := by
  cases hi : c.getInstance f.dataStr with
  | none =>
    rw [NetSystem.entDeallocate, hi]
    exact h
  | some i =>
    cases hm : i.getManager f.name with
    | none =>
      rw [NetSystem.entDeallocate, hi]
      simp only [hm]
      exact h
    | some m =>
      cases hobject : m.getByNetID f.netID with
      | none =>
        rw [NetSystem.entDeallocate, hi]
        simp only [hm, hobject]
        exact h
      | some object =>
        rw [entDeallocate_known hi hm hobject]
        exact h.free (NetSystem.managerOf_eq_some.mpr ⟨i, hi, hm⟩) hobject

/-! ### Data -/

/-- Updates that keep what the containers are kept by. -/
theorem mapObjects (h : Registered s₀ frames c) {g : NetObject → NetObject}
    (hg : ∀ o, (g o).handle = o.handle ∧ (g o).isNetworkLocal = o.isNetworkLocal) :
    Registered s₀ frames (c.mapObjects g) := by
  have hid : ∀ o, (g o).netID = o.netID := fun o => congrArg ObjRef.netID (hg o).1
  have hmanagers : (c.mapObjects g).managers = c.managers.map (CEntities.mapObjects g) := by
    rw [NetSystem.managers, NetSystem.mapObjects, NetSystem.managers, List.flatMap_map, List.map_flatMap]
    rfl
  have hobjects : (c.mapObjects g).objects = c.objects.map g := by
    rw [NetSystem.objects_eq_flatMap, NetSystem.objects_eq_flatMap, hmanagers, List.flatMap_map,
      List.map_flatMap]
    rfl
  have hfind : ∀ a b, (c.mapObjects g).managerOf a b =
      (c.managerOf a b).map (CEntities.mapObjects g) := by
    intro a b
    have hinst : (c.mapObjects g).getInstance a = (c.getInstance a).map (VirtualInstance.mapObjects g) :=
      List.find?_map
    rw [NetSystem.managerOf, NetSystem.managerOf, hinst]
    cases c.getInstance a with
    | none => rfl
    | some i => exact List.find?_map
  refine ⟨?_, ?_, ?_, ?_, ?_⟩
  · intro a b
    rw [hfind, Option.isSome_map, h.known]
  · have hids : NetObject.netID ∘ g = NetObject.netID := funext hid
    rw [hobjects, List.map_map, hids]
    exact h.distinct
  · intro o ho
    rw [hobjects] at ho
    obtain ⟨o', ho', rfl⟩ := List.mem_map.mp ho
    obtain ⟨f, hf, hplaces, hfid, m, hm, hom⟩ := h.home o' ho'
    refine ⟨f, hf, hplaces, hfid.trans (hid o').symm, m.mapObjects g, ?_, List.mem_map_of_mem hom⟩
    rw [hfind, hm]
    rfl
  · intro m hm
    rw [hmanagers] at hm
    obtain ⟨m', hm', rfl⟩ := List.mem_map.mp hm
    show m'.objectsLocal = ((m'.objects.map g).filter NetObject.isNetworkLocal).map NetObject.handle
    have hlocal : NetObject.isNetworkLocal ∘ g = NetObject.isNetworkLocal := funext fun o => (hg o).2
    have hhandle : NetObject.handle ∘ g = NetObject.handle := funext fun o => (hg o).1
    rw [h.locals m' hm', List.filter_map, List.map_map, hlocal, hhandle]
  · intro id handle
    show c.controlledObjects.lookup id = some handle ↔ _
    rw [h.controlled, hobjects]
    simp only [List.mem_map, exists_exists_and_eq_and, hid, (hg _).1, (hg _).2]

theorem data (h : Registered s₀ frames c) (f : Frame) :
    Registered s₀ frames (c.readEntityUpdate f none) := by
  rw [NetSystem.readEntityUpdate_eq_map (List.pairwise_map.mp h.distinct)]
  apply h.mapObjects
  intro o
  rw [atID]
  split_ifs <;> exact ⟨rfl, rfl⟩

/-- **Every frame keeps the containers together.** -/
theorem process (h : Registered s₀ frames c) (hone : s₀.OneHome frames) (hf : f ∈ frames) :
    Registered s₀ frames (c.process f) := by
  rw [NetSystem.process, NetSystem.actServer]
  split_ifs with hdata halloc hdealloc
  · exact h.data f
  · exact h.alloc hone hf halloc
  · exact h.dealloc
  · exact h

/-- No object has the net id of a deletion. -/
theorem gone (h : Registered s₀ frames c) (hone : s₀.OneHome frames) (hf : f ∈ frames)
    (hkind : f.frameType = kFrameDealloc) (hplaces : s₀.Places f) :
    ∀ o ∈ (c.process f).objects, o.netID ≠ f.netID := by
  intro o ho hid
  have hsome : (c.managerOf f.dataStr f.name).isSome = true := (h.known _ _).trans hplaces.2
  obtain ⟨m, hm⟩ := Option.isSome_iff_exists.mp hsome
  obtain ⟨i, hi, hm'⟩ := NetSystem.managerOf_eq_some.mp hm
  have hact : c.process f = (c.entDeallocate f).2 := by
    rw [NetSystem.process, NetSystem.actServer, hkind]
    rfl
  have hhome := h.process hone hf
  rw [hact] at ho hhome
  cases hobject : m.getByNetID f.netID with
  | none =>
    have hsame : (c.entDeallocate f).2 = c := by
      rw [NetSystem.entDeallocate, hi]
      simp only [hm', hobject]
    rw [hsame] at ho
    rw [CEntities.getByNetID, List.find?_eq_none] at hobject
    exact hobject o (h.mem_home hone hf hplaces hm ho hid) (beq_iff_eq.mpr hid)
  | some object =>
    have hr : c.Replaced f.dataStr f.name m (m.freeLocal f.netID) (c.entDeallocate f).2 := by
      rw [entDeallocate_known hi hm' hobject]
      exact NetSystem.replaced_modify (f := CEntities.freeLocal f.netID) hm (fun _ => rfl) rfl
    have hfound : (c.entDeallocate f).2.managerOf f.dataStr f.name = some (m.freeLocal f.netID) := by
      rw [hr.finds, if_pos ⟨rfl, rfl⟩]
    have hmem := hhome.mem_home hone hf hplaces hfound ho hid
    rw [CEntities.objects_freeLocal (h.consistent.distinct m hr.mem), List.mem_filter] at hmem
    exact absurd hid (by simpa using hmem.2)

end Registered

theorem NetSystem.Vacant.registered {s : NetSystem} (h : s.Vacant) (frames : List Frame) :
    Registered s frames s := by
  have hnone : s.objects = [] := by
    rw [NetSystem.objects_eq_flatMap, List.flatMap_eq_nil_iff]
    exact h.objects
  refine ⟨fun _ _ => rfl, ?_, ?_, ?_, ?_⟩
  · rw [hnone]
    exact List.nodup_nil
  · rw [hnone]
    simp
  · intro m hm
    rw [h.locals m hm, h.objects m hm]
    rfl
  · intro id handle
    rw [h.controlled, hnone]
    simp

/-! ## Runs -/

/-- **The registries of a client stay consistent**, whatever frames it processes; and no container
holds an object of the net id a deletion names. -/
theorem registries_consistent {s : NetSystem} (hs : s.Vacant) (frames : List Frame)
    (hone : s.OneHome frames) : (run NetSystem.process s frames).Consistent ∧
      ∀ before f, frames = before ++ [f] → f.frameType = kFrameDealloc → s.Places f →
        (∀ m ∈ (run NetSystem.process s frames).managers, (∀ o ∈ m.objects, o.netID ≠ f.netID) ∧
          ∀ h ∈ m.objectsLocal, h.netID ≠ f.netID) ∧
        f.netID ∉ (run NetSystem.process s frames).controlledObjects := by
  have hstep : ∀ c f, Registered s frames c → f ∈ frames → Registered s frames (c.process f) :=
    fun c f h hf => h.process hone hf
  have hrun : ∀ fs, (∀ f ∈ fs, f ∈ frames) → Registered s frames (run NetSystem.process s fs) :=
    fun fs hfs => run_inv hstep (hs.registered frames) (along_of_forall hfs s)
  have h := hrun frames fun _ hf => hf
  refine ⟨h.consistent, ?_⟩
  rintro before f rfl hkind hplaces
  have hf : f ∈ before ++ [f] := List.mem_append_right _ (List.mem_singleton_self f)
  have hbefore := hrun before fun g hg => List.mem_append_left _ hg
  have hlast : run NetSystem.process s (before ++ [f]) = (run NetSystem.process s before).process f := by
    rw [run, List.foldl_append]
    rfl
  have hgone := hbefore.gone hone hf hkind hplaces
  rw [hlast] at h ⊢
  refine ⟨fun m hm => ⟨fun o ho => hgone o (NetSystem.mem_objects.mpr ⟨m, hm, ho⟩), ?_⟩, ?_⟩
  · intro handle hhandle
    rw [h.locals m hm] at hhandle
    obtain ⟨o, ho, rfl⟩ := List.mem_map.mp hhandle
    exact hgone o (NetSystem.mem_objects.mpr ⟨m, hm, List.mem_of_mem_filter ho⟩)
  · intro hmem
    obtain ⟨handle, hlookup⟩ := Option.isSome_iff_exists.mp (AList.lookup_isSome.mpr hmem)
    obtain ⟨o, ho, -, hid, -⟩ := (h.controlled _ _).mp hlookup
    exact hgone o ho hid

/-- An instance with two managers. -/
def twoManagers : NetSystem where
  server := false
  instances := [{
    name := [1]
    managers := [{ name := [2], name_le := by decide, cls := .bare },
      { name := [3], name_le := by decide, cls := .bare }] }]

/-- An object of the client, announced twice and then freed, one of somebody else, and one in a manager
the client does not know. -/
def announcements : List Frame :=
  [allocFrame [1] [2] 5 netControllerLocal, allocFrame [1] [2] 5 netControllerNone,
    allocFrame [1] [3] 6 netControllerNone, allocFrame [1] [4] 5 netControllerLocal,
    deallocFrame [1] [2] 5]

theorem registries_consistent_twoManagers :
    (run NetSystem.process twoManagers announcements).Consistent ∧
      5 ∉ (run NetSystem.process twoManagers announcements).controlledObjects := by
  have hvacant : twoManagers.Vacant := by
    constructor <;> simp [twoManagers, NetSystem.managers]
  have h := registries_consistent hvacant announcements (by decide)
  exact ⟨h.1, (h.2 (announcements.take 4) (deallocFrame [1] [2] 5) rfl rfl (by decide)).2⟩

end Nettik
