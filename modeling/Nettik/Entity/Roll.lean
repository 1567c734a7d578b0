import Nettik.World.Client

/-!
# Which objects a controller holds

* `roll`: the net ids and controllers of a manager; data frames and list messages do not change it;
* `EntityMsg`: what the other frames say, `Roster.apply` what they do;
* `Aware`: a client that knows the instance and its managers;
* **`throughout_actServer`**: an aware client handles the frames of a packet without an exception,
  and its roster becomes what their messages make of it.
-/

namespace Nettik

open ByteMem Loops

/-! ## Rolls -/

/-- The net ids and controllers of the objects. -/
def CEntities.roll (m : CEntities) : List (UInt32 × UInt32) :=
  m.objects.map fun o => (o.netID, o.controller)

theorem CEntities.roll_modifyObject {id : UInt32} {f : NetObject → NetObject}
    (hf : ∀ o, (f o).netID = o.netID ∧ (f o).controller = o.controller) (m : CEntities) :
    (m.modifyObject id f).roll = m.roll :=
  map_modifyFirst fun o _ => by rw [(hf o).1, (hf o).2]

theorem CEntities.getByNetID_eq_none {id : UInt32} {m : CEntities} :
    m.getByNetID id = none ↔ id ∉ m.roll.map Prod.fst := by
  simp [getByNetID, roll]

namespace NetSystem

variable (instanceName : Bytes)

/-- The manager that is found by its name. -/
def managerOf (n : Bytes) (s : NetSystem) : Option CEntities :=
  (s.getInstance instanceName).bind (·.getManager n)

def roll (n : Bytes) (s : NetSystem) : Option (List (UInt32 × UInt32)) :=
  (s.managerOf instanceName n).map CEntities.roll

variable {instanceName} {s : NetSystem}

/-- **An update of the manager that is found by its name.** -/
theorem managerOf_modifyManager {n : Bytes} {f : CEntities → CEntities}
    (hf : ∀ m, (f m).name = m.name) (n' : Bytes) :
    (s.modifyInstance instanceName (·.modifyManager n f)).managerOf instanceName n' =
      if n' = n then (s.managerOf instanceName n).map f else s.managerOf instanceName n' := by
  have hinst : (s.modifyInstance instanceName (·.modifyManager n f)).getInstance instanceName =
      (s.getInstance instanceName).map (·.modifyManager n f) :=
    find?_modifyFirst_self (by intro i; rfl) s.instances
  rw [managerOf, hinst, managerOf, managerOf]
  cases s.getInstance instanceName with
  | none => simp
  | some i =>
    by_cases h : n' = n
    · rw [if_pos h, h]
      exact find?_modifyFirst_self (fun m => by rw [hf m]) i.managers
    · rw [if_neg h]
      refine find?_modifyFirst_of_disjoint (fun m => by rw [hf m]) (fun m hm => ?_) i.managers
      rw [beq_iff_eq.mp hm, beq_eq_false_iff_ne]
      exact fun e => h e.symm

/-- An update of one manager that keeps its roll. -/
theorem map_getManager {p : CEntities → Bool} {f : CEntities → CEntities}
    (hf : ∀ m, (f m).name = m.name ∧ (f m).roll = m.roll) (i : VirtualInstance) (n : Bytes) :
    ((modifyFirst p f i.managers).find? (·.name == n)).map CEntities.roll =
      (i.getManager n).map CEntities.roll := by
  rw [Option.map_eq_bind, VirtualInstance.getManager, Option.map_eq_bind]
  apply bind_find?_modifyFirst
  · intro m
    rw [(hf m).1]
  · intro m
    exact congrArg some (hf m).2

/-- An update of one instance that keeps the rolls of its managers. -/
theorem roll_of_instances {p : VirtualInstance → Bool} {f : VirtualInstance → VirtualInstance} {n : Bytes}
    (hname : ∀ i, (f i).name = i.name)
    (hroll : ∀ i, ((f i).getManager n).map CEntities.roll = (i.getManager n).map CEntities.roll) :
    ({ s with instances := modifyFirst p f s.instances }).roll instanceName n =
      s.roll instanceName n := by
  simp only [roll, managerOf, Option.map_bind, getInstance]
  apply bind_find?_modifyFirst
  · intro i
    rw [hname]
  · exact hroll

theorem roll_modifyObject {id : UInt32} {f : NetObject → NetObject}
    (hf : ∀ o, (f o).netID = o.netID ∧ (f o).controller = o.controller) (n : Bytes) :
    (s.modifyObject id f).roll instanceName n = s.roll instanceName n := by
  apply roll_of_instances
  · intro i
    rfl
  · intro i
    apply map_getManager
    intro m
    exact ⟨rfl, CEntities.roll_modifyObject hf m⟩

theorem roll_readEntityUpdate (frame : Frame) (owner : Option Peer) (n : Bytes) :
    (s.readEntityUpdate frame owner).roll instanceName n = s.roll instanceName n := by
  have hf : ∀ o : NetObject, (o.readUpdate frame).netID = o.netID ∧
      (o.readUpdate frame).controller = o.controller := fun _ => ⟨rfl, rfl⟩
  rw [readEntityUpdate]
  cases s.findObject frame.netID with
  | none => rfl
  | some target =>
    dsimp only
    split_ifs
    · rfl
    · exact roll_modifyObject hf n

theorem roll_modifyList (target : AssociatedObject) (listID : UInt32)
    (f : ListContext → NetVarList → NetVarList) (n : Bytes) :
    (s.modifyList target listID f).roll instanceName n = s.roll instanceName n := by
  apply roll_of_instances
  · intro i
    rfl
  · intro i
    apply map_getManager
    intro m
    have hf : ∀ o : NetObject, ∀ ls, ({ o with lists := ls }).netID = o.netID ∧
        ({ o with lists := ls }).controller = o.controller := fun _ _ => ⟨rfl, rfl⟩
    exact ⟨rfl, CEntities.roll_modifyObject (fun o => hf o _) m⟩

end NetSystem

/-! ## Messages about objects -/

inductive EntityMsg where
  | alloc (managerName : Bytes) (netID controller : UInt32)
  | dealloc (managerName : Bytes) (netID : UInt32)
  deriving DecidableEq, Repr

def EntityMsg.managerName : EntityMsg → Bytes
  | .alloc n _ _ | .dealloc n _ => n

/-- The frame that frees an object on a client. -/
def deallocFrame (instanceName managerName : Bytes) (netID : UInt32) : Frame :=
  ⟨kFrameDealloc, netID, netControllerNone, 0, false, managerName, instanceName ++ [0]⟩

def EntityMsg.frame (instanceName : Bytes) : EntityMsg → Frame
  | .alloc n netID controller => allocFrame instanceName n netID controller
  | .dealloc n netID => deallocFrame instanceName n netID

/-- What a frame says about objects. -/
def Frame.news (f : Frame) : Option EntityMsg :=
  if f.frameType = kFrameAlloc then some (.alloc f.name f.netID f.controller)
  else if f.frameType = kFrameDealloc then some (.dealloc f.name f.netID)
  else none

theorem EntityMsg.news_frame (instanceName : Bytes) (e : EntityMsg) :
    (e.frame instanceName).extended.news = some e := by
  cases e <;> rfl

/-- The rolls by manager, and the net ids in `m_ControlledObjects`. -/
structure Roster where
  roll : Bytes → Option (List (UInt32 × UInt32))
  controlled : UInt32 → Prop

def rosterOf (instanceName : Bytes) (s : NetSystem) : Roster where
  roll n := s.roll instanceName n
  controlled id := id ∈ s.controlledObjects

namespace Roster

/-- A known net id is not allocated again, an unknown one not freed. -/
def apply (r : Roster) : EntityMsg → Roster
  | .alloc n id controller =>
    match r.roll n with
    | none => r
    | some l =>
      if id ∈ l.map Prod.fst then r
      else ⟨Function.update r.roll n (some (l ++ [(id, controller)])),
        fun x => (x = id ∧ controller = netControllerLocal) ∨ r.controlled x⟩
  | .dealloc n id =>
    match r.roll n with
    | none => r
    | some l =>
      match l.find? (·.1 == id) with
      | none => r
      | some o => ⟨Function.update r.roll n (some (l.eraseP (·.1 == id))),
          fun x => r.controlled x ∧ ¬ (x = id ∧ o.2 = netControllerLocal)⟩

variable {names : List Bytes} {r : Roster} {n : Bytes} {l : List (UInt32 × UInt32)} {id : UInt32}

theorem apply_alloc_of_mem (hl : r.roll n = some l) (hid : id ∈ l.map Prod.fst) (controller : UInt32) :
    r.apply (.alloc n id controller) = r := by
  simp only [apply, hl, if_pos hid]

theorem apply_alloc_of_notMem (hl : r.roll n = some l) (hid : id ∉ l.map Prod.fst)
    (controller : UInt32) : r.apply (.alloc n id controller) =
      ⟨Function.update r.roll n (some (l ++ [(id, controller)])),
        fun x => (x = id ∧ controller = netControllerLocal) ∨ r.controlled x⟩ := by
  simp only [apply, hl, if_neg hid]

theorem apply_dealloc_of_none (hl : r.roll n = some l) (hid : l.find? (·.1 == id) = none) :
    r.apply (.dealloc n id) = r := by
  simp only [apply, hl, hid]

theorem apply_dealloc_of_some (hl : r.roll n = some l) {o : UInt32 × UInt32}
    (hid : l.find? (·.1 == id) = some o) : r.apply (.dealloc n id) =
      ⟨Function.update r.roll n (some (l.eraseP (·.1 == id))),
        fun x => r.controlled x ∧ ¬ (x = id ∧ o.2 = netControllerLocal)⟩ := by
  simp only [apply, hl, hid]

/-- The managers of these names are known, and no net id occurs twice in one. -/
structure Knows (names : List Bytes) (r : Roster) : Prop where
  known : ∀ n ∈ names, (r.roll n).isSome = true
  distinct : ∀ n l, r.roll n = some l → (l.map Prod.fst).Nodup

theorem Knows.update (h : r.Knows names) (n : Bytes) (hl : (l.map Prod.fst).Nodup)
    (controlled : UInt32 → Prop) : Knows names ⟨Function.update r.roll n (some l), controlled⟩ := by
  constructor
  · intro n' hn'
    show (Function.update r.roll n (some l) n').isSome = true
    by_cases hn : n' = n
    · rw [hn, Function.update_self, Option.isSome_some]
    · rw [Function.update_of_ne hn]
      exact h.known n' hn'
  · intro n' l' (hl' : Function.update r.roll n (some l) n' = some l')
    by_cases hn : n' = n
    · rw [hn, Function.update_self] at hl'
      rwa [← Option.some.inj hl']
    · rw [Function.update_of_ne hn] at hl'
      exact h.distinct n' l' hl'

/-- **Messages about known managers keep the roster well formed.** -/
theorem Knows.apply (h : r.Knows names) {e : EntityMsg} (he : e.managerName ∈ names) :
    (r.apply e).Knows names := by
  cases e with
  | alloc n id controller =>
    obtain ⟨l, hl⟩ := Option.isSome_iff_exists.mp (h.known n he)
    have hnodup := h.distinct n l hl
    by_cases hid : id ∈ l.map Prod.fst
    · rwa [apply_alloc_of_mem hl hid]
    · rw [apply_alloc_of_notMem hl hid]
      apply h.update
      rw [List.map_append, List.map_singleton]
      exact hnodup.append (List.nodup_singleton id) (by simpa using hid)
  | dealloc n id =>
    obtain ⟨l, hl⟩ := Option.isSome_iff_exists.mp (h.known n he)
    have hnodup := h.distinct n l hl
    cases hid : l.find? (·.1 == id) with
    | none => rwa [apply_dealloc_of_none hl hid]
    | some o =>
      rw [apply_dealloc_of_some hl hid]
      apply h.update
      exact hnodup.sublist (List.eraseP_sublist.map Prod.fst)

end Roster

/-! ## Aware clients -/

/-- A connected client that knows the instance and the managers of these names. -/
structure Aware (instanceName : Bytes) (names : List Bytes) (c : NetSystem) : Prop where
  running : c.running = true
  callbacks : c.callbacks = clientCallbacks
  knows : (rosterOf instanceName c).Knows names

variable {instanceName : Bytes} {names : List Bytes} {c : NetSystem}

theorem Aware.exists_manager (h : Aware instanceName names c) {n : Bytes} (hn : n ∈ names) :
    ∃ i m, c.getInstance instanceName = some i ∧ i.getManager n = some m ∧
      (rosterOf instanceName c).roll n = some m.roll := by
  have hsome := h.knows.known n hn
  unfold rosterOf NetSystem.roll NetSystem.managerOf at hsome ⊢
  cases hi : c.getInstance instanceName with
  | none => simp [hi] at hsome
  | some i =>
    cases hm : i.getManager n with
    | none => simp [hi, hm] at hsome
    | some m => exact ⟨i, m, rfl, hm, by simp [hm]⟩

/-- A client that knows the managers and has no object yet. -/
theorem Aware.of_empty {i : VirtualInstance} (hrun : c.running = true)
    (hcb : c.callbacks = clientCallbacks) (hi : c.getInstance instanceName = some i)
    (hnames : ∀ n ∈ names, (i.getManager n).isSome = true) (hempty : ∀ m ∈ i.managers, m.objects = []) :
    Aware instanceName names c := by
  have hroll : ∀ n, (rosterOf instanceName c).roll n = (i.getManager n).map CEntities.roll := by
    intro n
    show c.roll instanceName n = _
    rw [NetSystem.roll, NetSystem.managerOf, hi, Option.bind_some]
  refine ⟨hrun, hcb, ?_, ?_⟩
  · intro n hn
    rw [hroll, Option.isSome_map]
    exact hnames n hn
  · intro n l hl
    rw [hroll, Option.map_eq_some_iff] at hl
    obtain ⟨m, hm, rfl⟩ := hl
    rw [CEntities.roll, hempty m (List.mem_of_find?_eq_some hm)]
    exact List.nodup_nil

/-- An update of one manager, seen in the rolls. -/
theorem roll_modifyManager {n : Bytes} {f : CEntities → CEntities} {l l' : List (UInt32 × UInt32)}
    (hname : ∀ m, (f m).name = m.name) (hroll : c.roll instanceName n = some l)
    (hf : ∀ m, m.roll = l → (f m).roll = l') (n' : Bytes) :
    (c.modifyInstance instanceName (·.modifyManager n f)).roll instanceName n' =
      Function.update (fun n => c.roll instanceName n) n (some l') n' := by
  rw [NetSystem.roll, NetSystem.managerOf_modifyManager hname]
  by_cases hn : n' = n
  · rw [if_pos hn, hn, Function.update_self]
    rw [NetSystem.roll] at hroll
    cases hm : c.managerOf instanceName n with
    | none => simp [hm] at hroll
    | some m =>
      rw [hm, Option.map_some] at hroll
      rw [Option.map_some, Option.map_some, hf m (Option.some.inj hroll)]
  · rw [if_neg hn, Function.update_of_ne hn]
    rfl

/-- **A creation frame acts on the roster as its message does.** -/
theorem actServer_alloc (h : Aware instanceName names c) {n : Bytes} (hn : n ∈ names)
    (hnul : (0 : UInt8) ∉ instanceName) (netID controller : UInt32) :
    ∃ c', NetSystem.actServer (allocFrame instanceName n netID controller).extended c = (.ok (), c') ∧
      c'.running = true ∧ c'.callbacks = clientCallbacks ∧
      rosterOf instanceName c' = (rosterOf instanceName c).apply (.alloc n netID controller) := by
  obtain ⟨i, m, hi, hm, hroll⟩ := h.exists_manager hn
  set frame := (allocFrame instanceName n netID controller).extended with hframe
  have hdata : frame.dataStr = instanceName := dataStr_extended rfl hnul
  have hact : NetSystem.actServer frame c = c.entAllocate frame := rfl
  have hi' : c.getInstance frame.dataStr = some i := by
    rw [hdata, hi]
  have hm' : i.getManager frame.name = some m := hm
  cases hid : m.getByNetID netID with
  | some o =>
    -- the net id is known
    have hmem : netID ∈ m.roll.map Prod.fst := by
      by_contra hnot
      rw [← CEntities.getByNetID_eq_none, hid] at hnot
      exact Option.some_ne_none o hnot
    have hid' : m.getByNetID frame.netID = some o := hid
    refine ⟨c, ?_, h.running, h.callbacks, ?_⟩
    · rw [hact, NetSystem.entAllocate, hi']
      simp only [hm', hid', Option.isNone_some, Bool.false_eq_true, if_false]
    · rw [Roster.apply_alloc_of_mem hroll hmem]
  | none =>
    have hmem : netID ∉ m.roll.map Prod.fst := CEntities.getByNetID_eq_none.mp hid
    refine ⟨_, hact.trans (entAllocate_new hi' hm' hid), h.running, h.callbacks, ?_⟩
    rw [Roster.apply_alloc_of_notMem hroll hmem, hdata]
    have hbuild : ∀ m' : CEntities, m'.roll = m.roll →
        (m'.buildLocal c.nextRef netID controller).roll = m.roll ++ [(netID, controller)] := by
      intro m' hm'
      rw [← hm', CEntities.roll, CEntities.buildLocal, List.map_append]
      rfl
    refine congrArg₂ Roster.mk ?_ ?_
    · funext n'
      exact roll_modifyManager (by intro _; rfl) hroll hbuild n'
    · funext x
      show (x ∈ if controller = netControllerLocal then c.controlledObjects.insert netID _
        else c.controlledObjects) = _
      apply propext
      split_ifs with hc
      · rw [AList.mem_insert]
        simp [hc, rosterOf]
      · simp [hc, rosterOf]

/-- **A deletion frame acts on the roster as its message does.** -/
theorem actServer_dealloc (h : Aware instanceName names c) {n : Bytes} (hn : n ∈ names)
    (hnul : (0 : UInt8) ∉ instanceName) (netID : UInt32) :
    ∃ c', NetSystem.actServer (deallocFrame instanceName n netID).extended c = (.ok (), c') ∧
      c'.running = true ∧ c'.callbacks = clientCallbacks ∧
      rosterOf instanceName c' = (rosterOf instanceName c).apply (.dealloc n netID) := by
  obtain ⟨i, m, hi, hm, hroll⟩ := h.exists_manager hn
  set frame := (deallocFrame instanceName n netID).extended with hframe
  have hdata : frame.dataStr = instanceName := dataStr_extended rfl hnul
  have hact : NetSystem.actServer frame c = c.entDeallocate frame := rfl
  have hi' : c.getInstance frame.dataStr = some i := by
    rw [hdata, hi]
  have hm' : i.getManager frame.name = some m := hm
  have hfind : m.roll.find? (·.1 == netID) =
      (m.getByNetID netID).map fun o => (o.netID, o.controller) := List.find?_map
  cases hid : m.getByNetID netID with
  | none =>
    have hid' : m.getByNetID frame.netID = none := hid
    rw [hid, Option.map_none] at hfind
    refine ⟨c, ?_, h.running, h.callbacks, ?_⟩
    · rw [hact, NetSystem.entDeallocate, hi']
      simp only [hm', hid']
    · rw [Roster.apply_dealloc_of_none hroll hfind]
  | some o =>
    have hid' : m.getByNetID frame.netID = some o := hid
    rw [hid, Option.map_some] at hfind
    have hfree : ∀ m' : CEntities, m'.roll = m.roll →
        (m'.freeLocal netID).roll = m.roll.eraseP (·.1 == netID) := by
      intro m' hm'
      rw [← hm', CEntities.roll, CEntities.freeLocal, CEntities.roll, List.eraseP_map]
      rfl
    refine ⟨_, hact.trans (entDeallocate_known hi' hm' hid'), h.running, h.callbacks, ?_⟩
    rw [Roster.apply_dealloc_of_some hroll hfind, hdata]
    refine congrArg₂ Roster.mk ?_ ?_
    · funext n'
      exact roll_modifyManager (by intro _; rfl) hroll hfree n'
    · funext x
      show (x ∈ if o.isNetworkLocal then c.controlledObjects.erase netID else c.controlledObjects) = _
      apply propext
      by_cases hlocal : o.isNetworkLocal = true
      · have hc : o.controller = netControllerLocal := beq_iff_eq.mp hlocal
        rw [if_pos hlocal, AList.mem_erase]
        simp [hc, rosterOf, and_comm]
      · have hc : ¬ o.controller = netControllerLocal := fun e => hlocal (beq_iff_eq.mpr e)
        rw [if_neg hlocal]
        simp [hc, rosterOf]

/-! ## Frames -/

theorem roster_readEntityUpdate (frame : Frame) (owner : Option Peer) (c : NetSystem) :
    (c.readEntityUpdate frame owner).running = c.running ∧
      (c.readEntityUpdate frame owner).callbacks = c.callbacks ∧
      rosterOf instanceName (c.readEntityUpdate frame owner) = rosterOf instanceName c := by
  have hrest : (c.readEntityUpdate frame owner).running = c.running ∧
      (c.readEntityUpdate frame owner).callbacks = c.callbacks ∧
      (c.readEntityUpdate frame owner).controlledObjects = c.controlledObjects := by
    unfold NetSystem.readEntityUpdate
    cases c.findObject frame.netID with
    | none => exact ⟨rfl, rfl, rfl⟩
    | some target =>
      dsimp only
      split_ifs <;> exact ⟨rfl, rfl, rfl⟩
  refine ⟨hrest.1, hrest.2.1, congrArg₂ Roster.mk ?_ ?_⟩
  · funext n
    exact NetSystem.roll_readEntityUpdate frame owner n
  · rw [hrest.2.2]

/-- A frame of a packet: data, or a message about an object of a known manager. -/
def Frame.Proper (instanceName : Bytes) (names : List Bytes) (f : Frame) : Prop :=
  f.frameType = kFrameData ∨ ∃ e : EntityMsg, e.managerName ∈ names ∧ f = e.frame instanceName

/-- **An aware client handles proper frames without an exception**, and its roster becomes what their
messages make of it. -/
theorem throughout_actServer (hnul : (0 : UInt8) ∉ instanceName) {fs : List Frame}
    (hfs : ∀ f ∈ fs, f.Proper instanceName names) (h : Aware instanceName names c) :
    ∃ c', throughout NetSystem.actServer (fs.map Frame.extended) c = (.ok (), c') ∧
      Aware instanceName names c' ∧ rosterOf instanceName c' =
        ((fs.map Frame.extended).filterMap Frame.news).foldl Roster.apply (rosterOf instanceName c) := by
  induction fs generalizing c with
  | nil => exact ⟨c, rfl, h, rfl⟩
  | cons f fs ih =>
    have hrest := fun g hg => hfs g (List.mem_cons_of_mem f hg)
    rcases hfs f List.mem_cons_self with hdata | ⟨e, he, rfl⟩
    · obtain ⟨hrun, hcb, hroster⟩ := roster_readEntityUpdate f.extended none c
      have hact : NetSystem.actServer f.extended c = (.ok (), c.readEntityUpdate f.extended none) :=
        if_pos hdata
      have hnews : f.extended.news = none := by
        rw [Frame.news, if_neg (by rw [Frame.extended, hdata]; decide),
          if_neg (by rw [Frame.extended, hdata]; decide)]
      obtain ⟨c', hc', haware, hr⟩ := ih hrest (c := c.readEntityUpdate f.extended none)
        ⟨hrun.trans h.running, hcb.trans h.callbacks, by rw [hroster]; exact h.knows⟩
      refine ⟨c', ?_, haware, ?_⟩
      · rw [List.map_cons, throughout, hact]
        exact hc'
      · rw [hr, hroster, List.map_cons, List.filterMap_cons_none hnews]
    · have hstep : ∃ c₁, NetSystem.actServer (e.frame instanceName).extended c = (.ok (), c₁) ∧
          c₁.running = true ∧ c₁.callbacks = clientCallbacks ∧
          rosterOf instanceName c₁ = (rosterOf instanceName c).apply e := by
        cases e with
        | alloc n netID controller => exact actServer_alloc h he hnul netID controller
        | dealloc n netID => exact actServer_dealloc h he hnul netID
      obtain ⟨c₁, hact, hrun, hcb, hroster⟩ := hstep
      obtain ⟨c', hc', haware, hr⟩ := ih hrest (c := c₁)
        ⟨hrun, hcb, by rw [hroster]; exact h.knows.apply he⟩
      refine ⟨c', ?_, haware, ?_⟩
      · rw [List.map_cons, throughout, hact]
        exact hc'
      · rw [hr, hroster, List.map_cons, List.filterMap_cons_some (e.news_frame instanceName),
          List.foldl_cons]

end Nettik
