import Nettik.Entity.Sends
import Nettik.Lib.Channels

/-!
# The objects of a controller

* `entities`: the manager names and net ids of the objects; `event` what a message makes of them;
* `Serving`: a server with one instance;
* **`Serving.build`, `Serving.release`, `Serving.connect`**: what the server's actions make of its
  entities.
-/

namespace Nettik

open ByteMem Loops Channels

variable {pb : Protobuf} {instanceName : Bytes} {names : List Bytes}

/-! ## Entities -/

/-- The manager names and net ids of the objects of an instance. -/
def NetSystem.entities (instanceName : Bytes) (s : NetSystem) : Set (Bytes × UInt32) :=
  {x | ∃ m, s.managerOf instanceName x.1 = some m ∧ ∃ o ∈ m.objects, o.netID = x.2}

def EntityMsg.event : EntityMsg → Event (Bytes × UInt32)
  | .alloc n id _ => .add (n, id)
  | .dealloc n id => .remove (n, id)

namespace Roster

def entities (r : Roster) : Set (Bytes × UInt32) :=
  {x | ∃ l, r.roll x.1 = some l ∧ x.2 ∈ l.map Prod.fst}

variable {r : Roster} {n : Bytes} {l : List (UInt32 × UInt32)}

theorem mem_entities_update (controlled : UInt32 → Prop) (n' : Bytes) (id : UInt32) :
    (n', id) ∈ entities ⟨Function.update r.roll n (some l), controlled⟩ ↔
      if n' = n then id ∈ l.map Prod.fst else (n', id) ∈ r.entities := by
  by_cases hn : n' = n
  · simp [entities, hn]
  · simp [entities, hn]

theorem mem_entities (hl : r.roll n = some l) (id : UInt32) :
    (n, id) ∈ r.entities ↔ id ∈ l.map Prod.fst := by
  simp [entities, hl]

/-- **What a message makes of the entities.** -/
theorem entities_apply (h : r.Knows names) {e : EntityMsg} (he : e.managerName ∈ names) :
    (r.apply e).entities = e.event.act r.entities := by
  ext ⟨n', id'⟩
  cases e with
  | alloc n id controller =>
    obtain ⟨l, hl⟩ := Option.isSome_iff_exists.mp (h.known n he)
    have hact : (n', id') ∈ (EntityMsg.alloc n id controller).event.act r.entities ↔
        (n' = n ∧ id' = id) ∨ (n', id') ∈ r.entities := by
      simp [EntityMsg.event, Event.act]
    rw [hact]
    by_cases hid : id ∈ l.map Prod.fst
    · rw [apply_alloc_of_mem hl hid]
      constructor
      · exact Or.inr
      · rintro (⟨rfl, rfl⟩ | hmem)
        · exact (mem_entities hl _).mpr hid
        · exact hmem
    · rw [apply_alloc_of_notMem hl hid, mem_entities_update]
      split_ifs with hn
      · subst hn
        rw [mem_entities hl]
        simp [or_comm]
      · simp [hn]
  | dealloc n id =>
    obtain ⟨l, hl⟩ := Option.isSome_iff_exists.mp (h.known n he)
    have hact : (n', id') ∈ (EntityMsg.dealloc n id).event.act r.entities ↔
        (n', id') ∈ r.entities ∧ ¬ (n' = n ∧ id' = id) := by
      simp [EntityMsg.event, Event.act]
    rw [hact]
    cases hid : l.find? (·.1 == id) with
    | none =>
      rw [apply_dealloc_of_none hl hid]
      refine ⟨fun hmem => ⟨hmem, ?_⟩, And.left⟩
      rintro ⟨rfl, rfl⟩
      rw [mem_entities hl] at hmem
      simp only [List.find?_eq_none] at hid
      obtain ⟨x, hx, hxid⟩ := List.mem_map.mp hmem
      exact hid x hx (beq_iff_eq.mpr hxid)
    | some o =>
      rw [apply_dealloc_of_some hl hid, mem_entities_update]
      split_ifs with hn
      · subst hn
        have herase : (l.eraseP (·.1 == id)).map Prod.fst = (l.map Prod.fst).erase id := by
          rw [List.erase_eq_eraseP', List.eraseP_map]
          rfl
        rw [herase, (h.distinct n' l hl).mem_erase_iff, mem_entities hl]
        simp [and_comm]
      · simp [hn]

/-- **What the messages of several packets make of them.** -/
theorem entities_foldl {es : List EntityMsg} (h : r.Knows names)
    (hes : ∀ e ∈ es, e.managerName ∈ names) :
    (es.foldl apply r).entities = after (es.map EntityMsg.event) r.entities := by
  induction es generalizing r with
  | nil => rfl
  | cons e es ih =>
    have he := hes e List.mem_cons_self
    rw [List.foldl_cons, ih (h.apply he) fun e' he' => hes e' (List.mem_cons_of_mem e he'),
      entities_apply h he]
    rfl

end Roster

theorem entities_rosterOf (s : NetSystem) :
    (rosterOf instanceName s).entities = s.entities instanceName := by
  ext ⟨n, id⟩
  have hroll : (rosterOf instanceName s).roll n = (s.managerOf instanceName n).map CEntities.roll := rfl
  simp only [Roster.entities, NetSystem.entities, Set.mem_ofPred_eq, hroll, Option.map_eq_some_iff]
  constructor
  · rintro ⟨-, ⟨m, hm, rfl⟩, hid⟩
    exact ⟨m, hm, by simpa [CEntities.roll] using hid⟩
  · rintro ⟨m, hm, hid⟩
    exact ⟨m.roll, ⟨m, hm, rfl⟩, by simpa [CEntities.roll] using hid⟩

/-! ## The server -/

/-- A manager whose names travel and whose net ids are distinct. -/
structure CEntities.Fit (instanceName : Bytes) (m : CEntities) : Prop where
  named : Named instanceName m.name
  varNames : ∀ o ∈ m.objects, ∀ v ∈ o.vars, v.name.1.length < maxEntvarName
  classNames : ∀ v ∈ m.cls.vars, v.name.1.length < maxEntvarName
  distinct : (m.roll.map Prod.fst).Nodup

/-- A running server with one instance; `m_pManagers` maps distinct names to the managers. -/
structure Serving (names : List Bytes) (s : NetSystem) (i : VirtualInstance) : Prop where
  server : s.server = true
  running : s.running = true
  instances : s.instances = [i]
  names_eq : i.managers.map CEntities.name = names
  names_nodup : names.Nodup
  fit : ∀ m ∈ i.managers, m.Fit i.name

variable {s : NetSystem} {i : VirtualInstance} {m : CEntities}

theorem Serving.varNamesFit (h : Serving names s i) : i.VarNamesFit :=
  fun m hm => (h.fit m hm).varNames

theorem Serving.getInstance (h : Serving names s i) : s.getInstance i.name = some i := by
  simp [NetSystem.getInstance, h.instances]

theorem Serving.roll (h : Serving names s i) (n : Bytes) :
    (rosterOf i.name s).roll n = (i.getManager n).map CEntities.roll := by
  show ((s.getInstance i.name).bind (·.getManager n)).map CEntities.roll = _
  rw [h.getInstance, Option.bind_some]

theorem Serving.mem_entities (h : Serving names s i) {n : Bytes} (hm : i.getManager n = some m)
    (id : UInt32) : (n, id) ∈ s.entities i.name ↔ id ∈ m.roll.map Prod.fst := by
  rw [← entities_rosterOf]
  apply Roster.mem_entities
  rw [h.roll, hm, Option.map_some]

theorem name_of_getManager {n : Bytes} (hm : i.getManager n = some m) : m.name = n := by
  rw [VirtualInstance.getManager] at hm
  simpa using List.find?_some hm

theorem Serving.getManager_iff (h : Serving names s i) {n : Bytes} :
    i.getManager n = some m ↔ m ∈ i.managers ∧ m.name = n := by
  constructor
  · intro hm
    exact ⟨List.mem_of_find?_eq_some hm, name_of_getManager hm⟩
  · rintro ⟨hm, rfl⟩
    have hsome : (i.getManager m.name).isSome = true := by
      rw [VirtualInstance.getManager, List.find?_isSome]
      exact ⟨m, hm, beq_iff_eq.mpr rfl⟩
    obtain ⟨m', hm'⟩ := Option.isSome_iff_exists.mp hsome
    have hnodup : (i.managers.map CEntities.name).Nodup := h.names_eq ▸ h.names_nodup
    rw [hm', List.inj_on_of_nodup_map hnodup (List.mem_of_find?_eq_some hm') hm (name_of_getManager hm')]

/-- The objects under their managers. -/
theorem Serving.entities_eq (h : Serving names s i) :
    s.entities i.name = {x | x ∈ i.managers.flatMap fun m => m.objects.map fun o => (m.name, o.netID)} := by
  have hmanager : ∀ n, s.managerOf i.name n = i.getManager n := by
    intro n
    rw [NetSystem.managerOf, h.getInstance, Option.bind_some]
  ext ⟨n, id⟩
  simp only [NetSystem.entities, Set.mem_ofPred_eq, hmanager, h.getManager_iff, List.mem_flatMap,
    List.mem_map, Prod.mk.injEq]
  constructor
  · rintro ⟨m, ⟨hm, hn⟩, o, ho, hid⟩
    exact ⟨m, hm, o, ho, hn, hid⟩
  · rintro ⟨m, hm, o, ho, hn, hid⟩
    exact ⟨m, ⟨hm, hn⟩, o, ho, hid⟩

theorem CEntities.Fit.snapped (h : m.Fit instanceName) (r bForced : Bool) :
    (m.snapped r bForced).Fit instanceName := by
  refine ⟨h.named, CEntities.varNames_snapped h.varNames r bForced, h.classNames, ?_⟩
  rw [CEntities.roll_snapped]
  exact h.distinct

/-- The server with another state of its instance. -/
theorem Serving.update (h : Serving names s i) {s' : NetSystem} {i' : VirtualInstance}
    (hserver : s'.server = s.server) (hrunning : s'.running = s.running) (hs' : s'.instances = [i'])
    (hname : i'.name = i.name) (hnames : i'.managers.map CEntities.name = i.managers.map CEntities.name)
    (hfit : ∀ m ∈ i'.managers, m.Fit i.name) : Serving names s' i' :=
  ⟨hserver.trans h.server, hrunning.trans h.running, hs', hnames.trans h.names_eq, h.names_nodup,
    hname ▸ hfit⟩

theorem names_snapped (r bForced : Bool) (i : VirtualInstance) :
    (i.snapped r bForced).managers.map CEntities.name = i.managers.map CEntities.name := by
  rw [VirtualInstance.snapped, List.map_map]
  rfl

theorem fit_snapped (h : ∀ m ∈ i.managers, m.Fit instanceName) (r bForced : Bool) :
    ∀ m ∈ (i.snapped r bForced).managers, m.Fit instanceName := by
  intro m' hm'
  obtain ⟨m, hm, rfl⟩ := List.mem_map.mp hm'
  exact (h m hm).snapped r bForced

theorem roll_getManager_snapped (r bForced : Bool) (i : VirtualInstance) (n : Bytes) :
    ((i.snapped r bForced).getManager n).map CEntities.roll = (i.getManager n).map CEntities.roll := by
  rw [getManager_snapped, Option.map_map]
  congr 1
  funext m
  exact m.roll_snapped r bForced

/-- The manager of that name, changed. -/
theorem names_modifyManager {n : Bytes} {f : CEntities → CEntities} (hf : ∀ m, (f m).name = m.name)
    (i : VirtualInstance) :
    (i.modifyManager n f).managers.map CEntities.name = i.managers.map CEntities.name :=
  map_modifyFirst fun m _ => hf m

theorem fit_modifyManager {n : Bytes} {f : CEntities → CEntities}
    (h : ∀ m ∈ i.managers, m.Fit instanceName)
    (hf : ∀ m, i.getManager n = some m → (f m).Fit instanceName) :
    ∀ m ∈ (i.modifyManager n f).managers, m.Fit instanceName := by
  intro m' hm'
  rcases mem_modifyFirst hm' with hm' | ⟨m, hm, rfl⟩
  · exact h m' hm'
  · exact hf m hm

/-- **A change of one manager**, seen in the entities. -/
theorem entities_update {n : Bytes} {l : List (UInt32 × UInt32)}
    {s' : NetSystem} {i' : VirtualInstance} (h : Serving names s i) (h' : Serving names s' i')
    (hname : i'.name = i.name) (hroll : ∀ n', (i'.getManager n').map CEntities.roll =
      if n' = n then some l else (i.getManager n').map CEntities.roll) (n' : Bytes) (id : UInt32) :
    (n', id) ∈ s'.entities i.name ↔
      if n' = n then id ∈ l.map Prod.fst else (n', id) ∈ s.entities i.name := by
  have hnew : ∀ n', (rosterOf i.name s').roll n' =
      if n' = n then some l else (rosterOf i.name s).roll n' := by
    intro n'
    rw [h.roll, ← hname, h'.roll, hroll]
  rw [← entities_rosterOf, ← entities_rosterOf]
  simp only [Roster.entities, Set.mem_ofPred_eq, hnew]
  split_ifs <;> simp

theorem fit_extendedManager (h : m.Fit instanceName) (hnew : s.totalEntities ∉ m.roll.map Prod.fst)
    (owner : Option Peer) : (s.extendedManager m owner).Fit instanceName := by
  refine ⟨h.named, ?_, h.classNames, ?_⟩
  · intro o ho v hv
    rcases List.mem_append.mp ho with ho | ho
    · exact ((h.snapped true false).snapped false false).varNames o ho v hv
    · rw [List.mem_singleton.mp ho] at hv
      exact h.classNames v hv
  · rw [roll_extendedManager, List.map_append, List.map_singleton]
    exact h.distinct.append (List.nodup_singleton _) (by simpa using hnew)

theorem roll_getManager_modifyManager {n : Bytes} {f : CEntities → CEntities}
    (hname : ∀ m, (f m).name = m.name) (hm : i.getManager n = some m) (n' : Bytes) :
    ((i.modifyManager n f).getManager n').map CEntities.roll =
      if n' = n then some (f m).roll else (i.getManager n').map CEntities.roll := by
  rw [VirtualInstance.getManager] at hm
  unfold VirtualInstance.getManager VirtualInstance.modifyManager
  split_ifs with hn
  · rw [hn, find?_modifyFirst_self (fun m => by rw [hname m]), hm]
    rfl
  · rw [find?_modifyFirst_of_disjoint (fun m => by rw [hname m])]
    intro m' hm'
    rw [beq_iff_eq.mp hm', beq_eq_false_iff_ne]
    exact fun e => hn e.symm

theorem roll_getManager_extended (hm : i.getManager m.name = some m) (owner : Option Peer) (n : Bytes) :
    ((s.extendedInstance i m owner).getManager n).map CEntities.roll =
      if n = m.name then some (m.roll ++ [(s.totalEntities, netControllerLocal)])
      else (i.getManager n).map CEntities.roll := by
  rw [NetSystem.extendedInstance,
    roll_getManager_modifyManager (by intro _; rfl) (getManager_flushed hm), VirtualInstance.flushed,
    roll_getManager_snapped, roll_getManager_snapped, ← roll_extendedManager s m owner]
  rfl

/-- **A `Build` adds the new object.** -/
theorem Serving.build (pb : Protobuf) (h : Serving names s i) (hm : i.getManager m.name = some m)
    (hnew : s.totalEntities ∉ m.roll.map Prod.fst) (owner : Option Peer) :
    ∃ i', i'.name = i.name ∧ Serving names (s.build pb i.name m.name owner).1 i' ∧
      (s.build pb i.name m.name owner).1.entities i.name =
        insert (m.name, s.totalEntities) (s.entities i.name) := by
  have hbuilds : Builds s i m := ⟨h.server, h.running, h.getInstance, hm⟩
  have hfit : ∀ m' ∈ (s.extendedInstance i m owner).managers, m'.Fit i.name := by
    apply fit_modifyManager
    · exact fit_snapped (fit_snapped h.fit true false) false false
    · intro m' hm'
      rw [getManager_flushed hm] at hm'
      rw [← Option.some.inj hm']
      exact fit_extendedManager (h.fit m (List.mem_of_find?_eq_some hm)) hnew owner
  have hnames : (s.extendedInstance i m owner).managers.map CEntities.name =
      i.managers.map CEntities.name := by
    rw [NetSystem.extendedInstance, names_modifyManager (by intro _; rfl), VirtualInstance.flushed,
      names_snapped, names_snapped]
  -- the full snapshots for an owner change no roll
  obtain ⟨i', hname, hnames', hfit', hroll, hs'⟩ : ∃ i', i'.name = i.name ∧
      i'.managers.map CEntities.name = i.managers.map CEntities.name ∧
      (∀ m' ∈ i'.managers, m'.Fit i.name) ∧
      (∀ n, (i'.getManager n).map CEntities.roll =
        if n = m.name then some (m.roll ++ [(s.totalEntities, netControllerLocal)])
        else (i.getManager n).map CEntities.roll) ∧
      (s.build pb i.name m.name owner).1 = { s with
        totalEntities := s.totalEntities + 1
        nextRef := s.nextRef + 1
        instances := modifyFirst (·.name == i.name) (fun _ => i') s.instances } := by
    cases owner with
    | none =>
      refine ⟨s.extendedInstance i m none, rfl, hnames, hfit, roll_getManager_extended hm none, ?_⟩
      rw [build_none hbuilds]
    | some owner =>
      refine ⟨((s.extendedInstance i m (some owner)).snapped true true).snapped false true, rfl,
        ?_, ?_, ?_, ?_⟩
      · rw [names_snapped, names_snapped, hnames]
      · exact fit_snapped (fit_snapped hfit true true) false true
      · intro n
        rw [roll_getManager_snapped, roll_getManager_snapped, roll_getManager_extended hm]
      · rw [build_some hbuilds]
  have hinst : (s.build pb i.name m.name owner).1.instances = [i'] := by
    rw [hs', h.instances]
    simp [modifyFirst]
  have hserving : Serving names (s.build pb i.name m.name owner).1 i' :=
    h.update (by rw [hs']) (by rw [hs']) hinst hname hnames' hfit'
  refine ⟨i', hname, hserving, ?_⟩
  ext ⟨n, id⟩
  rw [entities_update h hserving hname hroll, Set.mem_insert_iff]
  split_ifs with hn
  · rw [hn, h.mem_entities hm, List.map_append]
    simp [or_comm]
  · simp [hn]

/-- The objects nobody else holds. -/
def CEntities.freed (held : ObjRef → Bool) (m : CEntities) : List NetObject :=
  m.objects.filter fun o => !held o.handle

theorem mem_roll_kept (hdistinct : (m.roll.map Prod.fst).Nodup) (held : ObjRef → Bool) (id : UInt32) :
    id ∈ (m.objects.filter fun o => held o.handle).map NetObject.netID ↔
      id ∈ m.roll.map Prod.fst ∧ id ∉ (m.freed held).map NetObject.netID := by
  have hids : m.roll.map Prod.fst = m.objects.map NetObject.netID := List.map_map
  rw [hids] at hdistinct ⊢
  simp only [CEntities.freed, List.mem_map, List.mem_filter, Bool.not_eq_true']
  constructor
  · rintro ⟨o, ⟨ho, hheld⟩, rfl⟩
    refine ⟨⟨o, ho, rfl⟩, ?_⟩
    rintro ⟨o', ⟨ho', hfree⟩, hid⟩
    obtain rfl : o' = o := List.inj_on_of_nodup_map hdistinct ho' ho hid
    exact Bool.noConfusion (hheld.symm.trans hfree)
  · rintro ⟨⟨o, ho, rfl⟩, hkept⟩
    cases hheld : held o.handle with
    | true => exact ⟨o, ⟨ho, hheld⟩, rfl⟩
    | false => exact absurd ⟨o, ⟨ho, hheld⟩, rfl⟩ hkept

/-- **A release removes the freed objects.** -/
theorem Serving.release (h : Serving names s i) (hm : i.getManager m.name = some m)
    (held : ObjRef → Bool) :
    ∃ i', i'.name = i.name ∧ Serving names (s.postUpdate i.name m.name held).1 i' ∧
      (s.postUpdate i.name m.name held).1.entities i.name =
        s.entities i.name \ {x | x ∈ (m.freed held).map fun o => (m.name, o.netID)} := by
  have hpost : s.postUpdate i.name m.name held =
      (s.modifyInstance i.name (·.modifyManager m.name fun m =>
          { m with objects := m.objects.filter fun o => held o.handle }),
        (m.freed held).flatMap fun o => s.freeEntity i.name m.name o) := by
    rw [NetSystem.postUpdate, h.getInstance, Option.bind_some, hm]
    simp only [h.running, h.server, Bool.and_self, if_true]
    rfl
  have hfst := h.fit m (List.mem_of_find?_eq_some hm)
  set kept : CEntities → CEntities := fun m => { m with objects := m.objects.filter fun o => held o.handle }
    with hkept
  have hsub : (kept m).roll.Sublist m.roll := List.filter_sublist.map _
  have hroll : ∀ n, ((i.modifyManager m.name kept).getManager n).map CEntities.roll =
      if n = m.name then some (kept m).roll else (i.getManager n).map CEntities.roll :=
    roll_getManager_modifyManager (by intro _; rfl) hm
  have hinst : (s.postUpdate i.name m.name held).1.instances = [i.modifyManager m.name kept] := by
    rw [hpost]
    simp [NetSystem.modifyInstance, h.instances, modifyFirst]
  have hserving : Serving names (s.postUpdate i.name m.name held).1 (i.modifyManager m.name kept) := by
    refine h.update (by rw [hpost]; rfl) (by rw [hpost]; rfl) hinst rfl
      (names_modifyManager (by intro _; rfl) i) ?_
    apply fit_modifyManager h.fit
    intro m' hm'
    obtain rfl : m = m' := Option.some.inj (hm.symm.trans hm')
    refine ⟨hfst.named, fun o ho => hfst.varNames o (List.mem_of_mem_filter ho), hfst.classNames, ?_⟩
    exact hfst.distinct.sublist (hsub.map _)
  refine ⟨i.modifyManager m.name kept, rfl, hserving, ?_⟩
  ext ⟨n, id⟩
  rw [entities_update h hserving rfl hroll]
  split_ifs with hn
  · have hids : (kept m).roll.map Prod.fst =
        (m.objects.filter fun o => held o.handle).map NetObject.netID := List.map_map
    rw [hn, Set.mem_sdiff, h.mem_entities hm, hids, mem_roll_kept hfst.distinct]
    simp
  · simp [Ne.symm hn]

/-- **A join leaves the entities as they are.** -/
theorem Serving.connect (pb : Protobuf) (h : Serving names s i) (peer : Peer) :
    ∃ i', i'.name = i.name ∧ Serving names (s.connectHandler pb peer).1 i' ∧
      (s.connectHandler pb peer).1.entities i.name = s.entities i.name := by
  have hs' : (s.connectHandler pb peer).1 =
      { s with instances := [(i.snapped true true).snapped false true] } := by
    simp only [NetSystem.connectHandler, NetSystem.visitInstances, h.instances, h.running, each,
      NetSystem.visitInstance, VirtualInstance.fst_doSnapshot]
  have hserving : Serving names (s.connectHandler pb peer).1 ((i.snapped true true).snapped false true) := by
    refine h.update (by rw [hs']) (by rw [hs']) (by rw [hs']) rfl ?_ ?_
    · rw [names_snapped, names_snapped]
    · exact fit_snapped (fit_snapped h.fit true true) false true
  refine ⟨(i.snapped true true).snapped false true, rfl, hserving, ?_⟩
  have hroll : ∀ n, (rosterOf i.name (s.connectHandler pb peer).1).roll n = (rosterOf i.name s).roll n := by
    intro n
    rw [h.roll, ← roll_getManager_snapped true true, ← roll_getManager_snapped false true]
    exact hserving.roll n
  rw [← entities_rosterOf, ← entities_rosterOf, Roster.entities, Roster.entities]
  simp only [hroll]

end Nettik
