import Nettik.Sync.Connect
import Nettik.World.Join
import Nettik.World.Rights

/-!
# Outlines

The part of a controller that writes, ticks and data frames leave as it is.

* `NetSystem.outline`: the objects with their controllers, owners and variable names;
* `updateVar`: a change of one variable; writes and data frames are such changes, `findVar_updateVar`;
* `snapshotUpdate_fst`, `findVar_snapshotUpdate`: what a tick leaves behind;
* **`filter_emitted`**: the frames a tick emits for one variable;
* **`snapshotUpdate_single`**: a tick over one instance sends a packet for each of the two streams.
-/

namespace Nettik

open ByteMem Loops

/-! ## Outlines -/

structure ObjectOutline where
  netID : UInt32
  controller : UInt32
  peer : Option Peer
  names : List Bytes
  deriving DecidableEq

structure Outline where
  server : Bool
  running : Bool
  peerList : List Peer
  callbacks : List (UInt16 × Handler)
  instances : List (List (List ObjectOutline))
  deriving DecidableEq

def NetObject.outline (o : NetObject) : ObjectOutline :=
  ⟨o.netID, o.controller, o.peer, o.vars.map (·.name.1)⟩

def NetSystem.outline (s : NetSystem) : Outline where
  server := s.server
  running := s.running
  peerList := s.peerList
  callbacks := s.callbacks
  instances := s.instances.map fun i => i.managers.map fun m => m.objects.map NetObject.outline

def Outline.objects (l : Outline) : List ObjectOutline := l.instances.flatten.flatten

def Outline.find (id : UInt32) (l : Outline) : Option ObjectOutline := l.objects.find? (·.netID == id)

/-- The peer that owns an object, if there is one. -/
def Outline.owner (id : UInt32) (l : Outline) : Option Peer := (l.find id).bind ObjectOutline.peer

/-- One instance with distinct net ids, distinct names in every object that keep to the limit of
`Constraints.h`, and fewer variables than a header can count. -/
structure Outline.Fit (l : Outline) : Prop where
  running : l.running = true
  single : l.instances.length = 1
  ids : (l.objects.map ObjectOutline.netID).Nodup
  names : ∀ o ∈ l.objects, o.names.Nodup
  fits : ∀ o ∈ l.objects, ∀ n ∈ o.names, n.length < maxEntvarName
  few : (l.objects.map fun o => o.names.length).sum < 65536

namespace NetSystem

variable {s : NetSystem}

/-- A view of the objects, container by container. -/
theorem map_objects {β : Type} (view : NetObject → β) (s : NetSystem) : s.objects.map view =
    (s.instances.map fun i => i.managers.map fun m => m.objects.map view).flatten.flatten := by
  have hinstance : ∀ i : VirtualInstance, i.objects.map view =
      (i.managers.map fun m => m.objects.map view).flatten := fun i => by
    rw [VirtualInstance.objects, List.flatMap_def, List.map_flatten, List.map_map]
    rfl
  rw [List.flatten_flatten, List.map_map, objects, List.flatMap_def, List.map_flatten, List.map_map]
  exact congrArg (fun f => (s.instances.map f).flatten) (funext hinstance)

theorem objects_outline (s : NetSystem) : s.outline.objects = s.objects.map NetObject.outline :=
  (map_objects NetObject.outline s).symm

theorem findObject_eq (id : UInt32) (s : NetSystem) :
    s.findObject id = s.objects.find? (·.netID == id) := by
  have hinstance : ∀ i : VirtualInstance, i.findObject id = i.objects.find? (·.netID == id) := fun i => by
    rw [VirtualInstance.objects, List.find?_flatMap]
    rfl
  rw [objects, List.find?_flatMap, findObject]
  exact congrArg (fun f => s.instances.findSome? f) (funext hinstance)

theorem find_outline (id : UInt32) (s : NetSystem) :
    s.outline.find id = (s.findObject id).map NetObject.outline := by
  rw [Outline.find, objects_outline, List.find?_map, findObject_eq]
  rfl

theorem owner_outline {id : UInt32} {o : NetObject} (h : s.findObject id = some o) :
    s.outline.owner id = o.peer := by
  rw [Outline.owner, find_outline, h]
  rfl

end NetSystem

/-! ## Changes of one variable -/

/-- Change the first variable of that name; `f` also reads the controller of the object. -/
def NetObject.updateVar (name : Bytes) (f : UInt32 → NetVar → NetVar) (o : NetObject) : NetObject :=
  { o with vars := modifyFirst (·.name.1 == name) (f o.controller) o.vars }

def NetSystem.updateVar (address : UInt32 × Bytes) (f : UInt32 → NetVar → NetVar) (s : NetSystem) :
    NetSystem :=
  s.modifyObject address.1 (NetObject.updateVar address.2 f)

section

variable {f : UInt32 → NetVar → NetVar} (hf : ∀ c v, (f c v).name = v.name)

include hf

theorem NetObject.outline_updateVar (name : Bytes) (o : NetObject) :
    (o.updateVar name f).outline = o.outline := by
  have hnames : (modifyFirst (·.name.1 == name) (f o.controller) o.vars).map (fun v => v.name.1) =
      o.vars.map (fun v => v.name.1) := map_modifyFirst fun v _ => by rw [hf]
  rw [outline, outline, updateVar, hnames]

theorem NetSystem.outline_updateVar (address : UInt32 × Bytes) (s : NetSystem) :
    (s.updateVar address f).outline = s.outline := by
  refine congrArg (fun instances => { s.outline with instances := instances }) ?_
  refine map_modifyFirst fun i _ => ?_
  refine map_modifyFirst fun m _ => ?_
  exact map_modifyFirst fun o _ => o.outline_updateVar hf address.2

/-- **A change of one variable is a change of that variable only.** -/
theorem NetSystem.findVar_updateVar (address address' : UInt32 × Bytes) (s : NetSystem) :
    (s.updateVar address f).findVar address' = (s.findVar address').map fun x =>
      (x.1, if address = address' then f x.1 x.2 else x.2) := by
  obtain ⟨id, name⟩ := address
  obtain ⟨id', name'⟩ := address'
  rw [updateVar, findVar, findVar, findObject_modifyObject_ite fun _ => by rfl]
  cases s.findObject id' with
  | none => rfl
  | some o =>
    simp only [Option.map_some, Option.bind_some, Option.map_map, Prod.mk.injEq]
    by_cases hid : id = id'
    · by_cases hname : name = name'
      · subst hname
        simp only [hid, true_and, if_true, NetObject.updateVar]
        rw [find?_modifyFirst_self fun v => by rw [hf], Option.map_map]
        rfl
      · simp only [hid, hname, and_false, if_true, if_false, NetObject.updateVar]
        rw [find?_modifyFirst_of_disjoint (fun v => by rw [hf]) fun v hv => ?_]
        · rfl
        · rw [beq_eq_false_iff_ne, beq_iff_eq.mp hv]
          exact hname
    · simp only [hid, false_and, if_false]
      rfl

end

/-- A value the application writes, or `Invalidate`. -/
inductive Write where
  | set (active : Bool) (data : Bytes)
  | invalidate
  deriving DecidableEq

/-- The value is `sizeof(VarType)` bytes. -/
def NetVar.write (w : Write) (v : NetVar) : NetVar :=
  { v with base := match w with
      | .set active data => v.base.set active (Blob.ofMem v.size (Mem.ofList data Mem.zero))
      | .invalidate => v.base.invalidate }

namespace NetSystem

def write (address : UInt32 × Bytes) (w : Write) (s : NetSystem) : NetSystem :=
  s.updateVar address fun _ => NetVar.write w

theorem outline_write (address : UInt32 × Bytes) (w : Write) (s : NetSystem) :
    (s.write address w).outline = s.outline :=
  outline_updateVar (f := fun _ => NetVar.write w) (fun _ _ => rfl) address s

theorem findVar_write (address address' : UInt32 × Bytes) (w : Write) (s : NetSystem) :
    (s.write address w).findVar address' = (s.findVar address').map fun x =>
      (x.1, if address = address' then x.2.write w else x.2) :=
  findVar_updateVar (f := fun _ => NetVar.write w) (fun _ _ => rfl) address address' s

theorem readEntityUpdate_none_eq (f : Frame) (s : NetSystem) :
    s.readEntityUpdate f none = s.updateVar f.variable fun c => NetVar.readUpdate c f :=
  readEntityUpdate_none f s

theorem readEntityUpdate_some_eq (f : Frame) (p : Peer) (s : NetSystem) :
    s.readEntityUpdate f (some p) =
      if s.outline.owner f.netID = some p then s.updateVar f.variable fun c => NetVar.readUpdate c f
      else s := by
  rw [readEntityUpdate]
  cases h : s.findObject f.netID with
  | none => simp [Outline.owner, find_outline, h]
  | some o =>
    rw [owner_outline h]
    by_cases hp : o.peer = some p
    · simp only [hp, Option.isSome_some, bne_self_eq_false, Bool.and_false, Bool.false_eq_true,
        if_false, if_true]
      rfl
    · simp [hp]

theorem outline_readEntityUpdate (f : Frame) (owner : Option Peer) (s : NetSystem) :
    (s.readEntityUpdate f owner).outline = s.outline := by
  cases owner with
  | none =>
    rw [readEntityUpdate_none_eq]
    exact outline_updateVar (f := fun c => NetVar.readUpdate c f) (fun _ _ => rfl) _ s
  | some p =>
    rw [readEntityUpdate_some_eq]
    split_ifs
    · exact outline_updateVar (f := fun c => NetVar.readUpdate c f) (fun _ _ => rfl) _ s
    · rfl

theorem outline_foldl (fs : List Frame) (owner : Option Peer) (s : NetSystem) :
    (fs.foldl (fun s f => s.readEntityUpdate f owner) s).outline = s.outline := by
  induction fs generalizing s with
  | nil => rfl
  | cons f fs ih =>
    rw [List.foldl_cons, ih, outline_readEntityUpdate]

end NetSystem

/-! ## Ticks -/

/-- What a tick makes of an object. -/
def NetObject.ticked (o : NetObject) : NetObject := (o.snapped true false).snapped false false

def NetVar.ticked (v : NetVar) : NetVar := { v with base := (v.base.takeVariableSnapshot false).2 }

theorem NetVar.snapped_snapped (b : Bool) (v : NetVar) : (v.snapped true b).snapped false b =
    { v with base := (v.base.takeVariableSnapshot b).2 } := by
  by_cases hv : v.reliable = true
  · have hfirst : v.snapped true b = { v with base := (v.base.takeVariableSnapshot b).2 } := if_pos hv
    rw [hfirst, snapped, if_neg (by simp [hv])]
  · have hfirst : v.snapped true b = v := if_neg hv
    rw [hfirst, snapped, if_pos (by simpa using hv)]

theorem NetObject.ticked_eq (o : NetObject) : o.ticked =
    { o with vars := o.vars.map fun v => if o.isNetworkLocal then v.ticked else v } := by
  by_cases ho : o.isNetworkLocal = true
  · have hs : (o.snapped true false).isNetworkLocal = true := by
      rw [snapped, if_pos ho]
      exact ho
    rw [ticked, snapped, if_pos hs, snapped, if_pos ho, List.map_map]
    simp only [ho, if_true]
    congr 1
    exact List.map_congr_left fun v _ => NetVar.snapped_snapped false v
  · rw [ticked, snapped, snapped, if_neg ho, if_neg (by exact ho)]
    simp [ho]

theorem NetObject.outline_ticked (o : NetObject) : o.ticked.outline = o.outline := by
  have hnames : ∀ v : NetVar, (if o.isNetworkLocal then v.ticked else v).name = v.name := fun v => by
    split_ifs <;> rfl
  simp only [ticked_eq, outline, List.map_map]
  congr 1
  exact List.map_congr_left fun v _ => congrArg Subtype.val (hnames v)

/-- The variables after a tick of their object. -/
theorem NetObject.find_ticked (name : Bytes) (o : NetObject) :
    o.ticked.vars.find? (·.name.1 == name) =
      (o.vars.find? (·.name.1 == name)).map fun v => if o.isNetworkLocal then v.ticked else v := by
  have hnames : ∀ v : NetVar, (if o.isNetworkLocal then v.ticked else v).name = v.name := fun v => by
    split_ifs <;> rfl
  rw [ticked_eq, List.find?_map]
  congr 2
  funext v
  simp only [Function.comp_apply, hnames]

namespace NetSystem

variable {s : NetSystem}

theorem findObject_mapObjects {g : NetObject → NetObject} (hg : ∀ o, (g o).netID = o.netID)
    (id : UInt32) (s : NetSystem) : (s.mapObjects g).findObject id = (s.findObject id).map g := by
  have hobjects : (s.mapObjects g).objects = s.objects.map g := by
    simp only [objects, mapObjects, List.flatMap_map, List.map_flatMap]
    refine List.flatMap_congr fun i _ => ?_
    simp only [VirtualInstance.objects, VirtualInstance.mapObjects, List.flatMap_map, List.map_flatMap]
    rfl
  rw [findObject_eq, findObject_eq, hobjects, List.find?_map]
  congr 2
  funext o
  simp only [Function.comp_apply, hg]

theorem outline_mapObjects {g : NetObject → NetObject} (hg : ∀ o, (g o).outline = o.outline)
    (s : NetSystem) : (s.mapObjects g).outline = s.outline := by
  refine congrArg (fun instances => { s.outline with instances := instances }) ?_
  show (s.instances.map (VirtualInstance.mapObjects g)).map _ = _
  rw [List.map_map]
  refine List.map_congr_left fun i _ => ?_
  show (i.managers.map (CEntities.mapObjects g)).map _ = _
  rw [List.map_map]
  refine List.map_congr_left fun m _ => ?_
  show (m.objects.map g).map _ = _
  rw [List.map_map]
  exact List.map_congr_left fun o _ => hg o

/-- **What a loop over the instances leaves behind.** -/
theorem visitInstances_fst (hrun : s.running = true) (bForced : Bool)
    (before : VirtualInstance → List Send) (out : SnapshotStream → SnapshotStream × List Send) :
    (s.visitInstances bForced before out).1 =
      s.mapObjects fun o => (o.snapped true bForced).snapped false bForced := by
  have hturn : ∀ i ∈ s.instances, ∀ acc, visitInstance s.running bForced before out i acc =
      ((i.snapped true bForced).snapped false bForced,
        (visitInstance s.running bForced before out i acc).2) := by
    intro i _ acc
    refine Prod.ext ?_ rfl
    rw [visitInstance, hrun, VirtualInstance.fst_doSnapshot, VirtualInstance.fst_doSnapshot]
  rw [visitInstances, each_eq s.instances hturn]
  refine congrArg (fun instances => { s with instances := instances }) ?_
  refine List.map_congr_left fun i _ => ?_
  simp only [VirtualInstance.snapped, VirtualInstance.mapObjects, List.map_map]
  refine congrArg (fun managers => { i with managers := managers }) ?_
  refine List.map_congr_left fun m _ => ?_
  simp only [Function.comp_apply, CEntities.snapped, CEntities.mapObjects, List.map_map]
  rfl

theorem snapshotUpdate_fst (hrun : s.running = true) :
    s.snapshotUpdate.1 = s.mapObjects NetObject.ticked :=
  visitInstances_fst hrun false _ _

theorem outline_snapshotUpdate (hrun : s.running = true) : s.snapshotUpdate.1.outline = s.outline := by
  rw [snapshotUpdate_fst hrun]
  exact outline_mapObjects NetObject.outline_ticked s

theorem findVar_snapshotUpdate (hrun : s.running = true) (address : UInt32 × Bytes) :
    s.snapshotUpdate.1.findVar address = (s.findVar address).map fun x =>
      (x.1, if x.1 = netControllerLocal then x.2.ticked else x.2) := by
  have hid : ∀ o : NetObject, o.ticked.netID = o.netID := fun o => by rw [NetObject.ticked_eq]
  have hcontroller : ∀ o : NetObject, o.ticked.controller = o.controller := fun o => by
    rw [NetObject.ticked_eq]
  rw [snapshotUpdate_fst hrun, findVar, findVar, findObject_mapObjects hid]
  cases s.findObject address.1 with
  | none => rfl
  | some o =>
    simp only [Option.map_some, Option.bind_some, Option.map_map, NetObject.find_ticked, hcontroller,
      NetObject.isNetworkLocal, beq_iff_eq]
    rfl

end NetSystem

/-! ## What a tick sends -/

theorem NetVar.emitted_variable {r b : Bool} {netID : UInt32} {v : NetVar} :
    ∀ f ∈ v.emitted r b netID, f.variable = (netID, v.name.1) := by
  intro f hf
  rw [emitted_eq] at hf
  split_ifs at hf
  · rw [List.mem_singleton.mp hf]
    rfl
  · exact absurd hf List.not_mem_nil

theorem NetVar.length_emitted_le (r b : Bool) (netID : UInt32) (v : NetVar) :
    (v.emitted r b netID).length ≤ 1 := by
  rw [emitted_eq]
  split_ifs <;> simp

/-- Between them the two streams hold what one snapshot of the variable emits. -/
theorem NetVar.emitted_both (netID : UInt32) (v : NetVar) :
    v.emitted true false netID ++ v.emitted false false netID =
      (v.base.takeVariableSnapshot false).1.toList.map (v.frame netID) := by
  rw [emitted, emitted]
  cases v.reliable <;> cases (v.base.takeVariableSnapshot false).1 <;> rfl

theorem NetObject.emitted_netID {r b : Bool} {o : NetObject} :
    ∀ f ∈ o.emitted r b, f.netID = o.netID := by
  intro f hf
  rw [emitted] at hf
  split_ifs at hf
  · obtain ⟨v, -, hv⟩ := List.mem_flatMap.mp hf
    exact congrArg Prod.fst (NetVar.emitted_variable f hv)
  · exact absurd hf List.not_mem_nil

theorem NetObject.length_emitted_le (r b : Bool) (o : NetObject) :
    (o.emitted r b).length ≤ o.vars.length := by
  rw [emitted]
  split_ifs
  · induction o.vars with
    | nil => exact le_rfl
    | cons v vs ih =>
      rw [List.flatMap_cons, List.length_append, List.length_cons]
      have hv := v.length_emitted_le r b o.netID
      omega
  · exact Nat.zero_le _

namespace NetSystem

variable {s : NetSystem} {i : VirtualInstance}

theorem objects_singleton (hi : s.instances = [i]) : s.objects = i.objects := by
  rw [objects, hi, List.flatMap_singleton]

theorem VirtualInstance.emitted_objects (r b : Bool) (i : VirtualInstance) :
    i.emitted r b = i.objects.flatMap (NetObject.emitted r b) := by
  rw [VirtualInstance.objects, List.flatMap_assoc]
  rfl

theorem exists_instance (h : s.outline.Fit) : ∃ i, s.instances = [i] := by
  have hlen := h.single
  rw [outline, List.length_map] at hlen
  exact List.length_eq_one_iff.mp hlen

theorem mem_outline {o : NetObject} (ho : o ∈ s.objects) : o.outline ∈ s.outline.objects := by
  rw [objects_outline]
  exact List.mem_map_of_mem ho

/-- The names fit into frames. -/
theorem varNamesFit (h : s.outline.Fit) (hi : s.instances = [i]) : i.VarNamesFit := by
  intro m hm o ho v hv
  have hobject : o ∈ s.objects := by
    rw [objects_singleton hi, VirtualInstance.objects]
    exact List.mem_flatMap.mpr ⟨m, hm, ho⟩
  exact h.fits _ (mem_outline hobject) _ (List.mem_map.mpr ⟨v, hv, rfl⟩)

/-- The frames fit into a packet. -/
theorem length_emitted_lt (h : s.outline.Fit) (hi : s.instances = [i]) (r b : Bool) :
    (i.emitted r b).length < 65536 := by
  refine lt_of_le_of_lt ?_ h.few
  rw [objects_outline, objects_singleton hi, VirtualInstance.emitted_objects, List.length_flatMap,
    List.map_map]
  refine List.sum_le_sum fun o _ => ?_
  rw [Function.comp_apply, NetObject.outline, List.length_map]
  exact o.length_emitted_le r b

/-- **The frames a tick emits for one variable** are those of the variable itself. -/
theorem filter_emitted (h : s.outline.Fit) (hi : s.instances = [i]) (r : Bool)
    (address : UInt32 × Bytes) : (i.emitted r false).filter (·.variable = address) =
      ((s.findVar address).map fun x =>
        if x.1 = netControllerLocal then x.2.emitted r false address.1 else []).getD [] := by
  obtain ⟨id, name⟩ := address
  have hids : (s.objects.map NetObject.netID).Nodup := by
    have hnodup := h.ids
    rw [objects_outline, List.map_map] at hnodup
    exact hnodup
  have hother : ∀ o ∈ s.objects, o.netID ≠ id →
      (o.emitted r false).filter (·.variable = (id, name)) = [] := by
    intro o _ ho
    refine List.filter_eq_nil_iff.mpr fun f hf => ?_
    rw [decide_eq_true_eq]
    exact fun e => ho ((NetObject.emitted_netID f hf).symm.trans (congrArg Prod.fst e))
  rw [VirtualInstance.emitted_objects, ← objects_singleton hi, List.filter_flatMap,
    flatMap_of_find? hids hother, ← findObject_eq, findVar]
  cases ho : s.findObject id with
  | none => rfl
  | some o =>
    have hmem : o ∈ s.objects := by
      rw [findObject_eq] at ho
      exact List.mem_of_find?_eq_some ho
    have hid : o.netID = id := by
      rw [findObject_eq] at ho
      simpa using List.find?_some ho
    have hnames : (o.vars.map (·.name.1)).Nodup := h.names _ (mem_outline hmem)
    have hunnamed : ∀ v ∈ o.vars, v.name.1 ≠ name →
        (v.emitted r false id).filter (·.variable = (id, name)) = [] := by
      intro v _ hv
      refine List.filter_eq_nil_iff.mpr fun f hf => ?_
      rw [decide_eq_true_eq]
      exact fun e => hv (congrArg Prod.snd ((NetVar.emitted_variable f hf).symm.trans e))
    simp only [Option.map_some, Option.getD_some, Option.bind_some, Option.map_map]
    rw [NetObject.emitted, NetObject.isNetworkLocal, hid]
    by_cases hl : o.controller = netControllerLocal
    · simp only [hl, beq_self_eq_true, if_true]
      rw [List.filter_flatMap, flatMap_of_find? hnames hunnamed]
      cases hv : o.vars.find? (·.name.1 == name) with
      | none => rfl
      | some v =>
        have hname : v.name.1 = name := by simpa using List.find?_some hv
        simp only [Option.map_some, Option.getD_some, Function.comp_apply, if_true]
        refine List.filter_eq_self.mpr fun f hf => ?_
        rw [decide_eq_true_eq, NetVar.emitted_variable f hf, hname]
    · cases o.vars.find? (·.name.1 == name) <;> simp [hl]

/-- The packet of one stream. -/
def streamPackets (r : Bool) (i : VirtualInstance) : List Bytes :=
  if i.emitted r false = [] then [] else [packetOf i.sequenceID (i.emitted r false)]

theorem sent_stream {r : Bool} (hlen : (i.emitted r false).length < 65536) {wrap : Bytes → Send}
    {out : SnapshotStream → SnapshotStream × List Send}
    (hout : ∀ stream, out stream = (stream.result.2, [wrap stream.result.1])) :
    (if (i.doSnapshot true r false {}).2.modified then out (i.doSnapshot true r false {}).2
      else ((i.doSnapshot true r false {}).2, [])).2 = (streamPackets r i).map wrap := by
  by_cases hne : i.emitted r false = []
  · rw [doSnapshot_quiet hne, streamPackets, if_pos hne]
    rfl
  · have hmod : (i.doSnapshot true r false {}).2.modified = true := by
      rw [doSnapshot_fresh hne hlen, SnapshotStream.modified, SnapshotHeader.frames_generate,
        written_build]
      simp [hne]
    rw [if_pos hmod, hout, doSnapshot_fresh hne hlen, streamPackets, if_neg hne]
    rfl

/-- **A tick over one instance sends the packets of its two streams.** -/
theorem snapshotUpdate_single (h : s.outline.Fit) (hi : s.instances = [i]) (wrap : Bytes → Send)
    (hout : ∀ stream, (if s.server then s.broadcastStream stream true
      else s.sendStream stream true none) = (stream.result.2, [wrap stream.result.1])) :
    s.snapshotUpdate.2 = (streamPackets true i ++ streamPackets false i).map wrap := by
  have hrun : s.running = true := h.running
  have hreliable := sent_stream (r := true) (length_emitted_lt h hi true false) hout
  have hunreliable := sent_stream (r := false) (length_emitted_lt h hi false false) hout
  rw [snapshotUpdate, visitInstances, hi, hrun]
  simp only [each, visitInstance]
  rw [VirtualInstance.fst_doSnapshot, doSnapshot_snapped, List.nil_append, List.nil_append,
    hreliable, hunreliable, List.map_append]

theorem emitted_data {r b : Bool} : ∀ f ∈ i.emitted r b, f.frameType = kFrameData := by
  intro f hf
  obtain ⟨m, -, o, -, -, v, -, -, -, rfl⟩ := VirtualInstance.mem_emitted.mp hf
  rfl

/-! ## What a packet does -/

section

variable {fs : List Frame} (pb : Protobuf) (past : Mem) (sequence : UInt32)
  (hlen : fs.length < 65536) (hfit : ∀ f ∈ fs, f.Fits) (hdata : ∀ f ∈ fs, f.frameType = kFrameData)

include hlen hfit hdata

theorem receive_client (hrun : s.running = true) (hcb : s.callbacks = clientCallbacks) (server : Peer) :
    s.receive pb past server (packetOf sequence fs) =
      (.ok (), (fs.map Frame.extended).foldl (fun s f => s.readEntityUpdate f none) s) := by
  rw [receive_packetOf pb past server hrun hcb sequence hlen hfit]
  refine throughout_dataFrames (fun f hf => ?_) s
  obtain ⟨g, hg, rfl⟩ := List.mem_map.mp hf
  exact hdata g hg

theorem receive_peer (hrun : s.running = true) (hcb : s.callbacks = serverCallbacks) (p : Peer) :
    s.receive pb past p (packetOf sequence fs) =
      (.ok (), (fs.map Frame.extended).foldl (fun s f => s.readEntityUpdate f (some p)) s) := by
  have hhandlers : s.handlersOf objectFrameCode = [.handleClientEntSnapshot] := by
    rw [handlersOf, hcb]
    rfl
  rw [receive_packetOf_eq pb past p hrun sequence hfit, hhandlers]
  simp only [throughout, runHandler, handleClientEntSnapshot]
  rw [handleSnapshot_packetOf _ sequence hlen hfit,
    throughout_ok (f := fun s f => s.readEntityUpdate f (some p)) fun f hf s => ?_]
  · rfl
  · obtain ⟨g, hg, rfl⟩ := List.mem_map.mp hf
    rw [actClient, if_pos (by exact hdata g hg)]

end

/-- What a variable can be found by, and its object's controller. -/
def core (o : NetObject) : UInt32 × UInt32 × List NetVar := (o.netID, o.controller, o.vars)

theorem findVar_core (address : UInt32 × Bytes) (s : NetSystem) : s.findVar address =
    ((s.objects.map core).find? (·.1 == address.1)).bind fun c =>
      (c.2.2.find? (·.name.1 == address.2)).map fun v => (c.2.1, v) := by
  rw [findVar, findObject_eq, List.find?_map, Option.bind_map]
  rfl

/-- A view that does not look into the lists. -/
theorem map_onRemote {β : Type} {view : NetObject → β}
    (hview : ∀ (o : NetObject) (lists : List NetVarList), view { o with lists := lists } = view o)
    (msg : ListMsg) (s : NetSystem) :
    ((s.onRemote msg).instances.map fun i => i.managers.map fun m => m.objects.map view) =
      s.instances.map fun i => i.managers.map fun m => m.objects.map view := by
  rw [onRemote]
  exact map_modifyList_iff.mpr fun _ _ _ _ _ _ => hview _ _

theorem outline_onRemote (msg : ListMsg) (s : NetSystem) : (s.onRemote msg).outline = s.outline := by
  refine congrArg (fun instances => { s.outline with instances := instances }) ?_
  exact map_onRemote (fun _ _ => rfl) msg s

theorem findVar_onRemote (address : UInt32 × Bytes) (msg : ListMsg) (s : NetSystem) :
    (s.onRemote msg).findVar address = s.findVar address := by
  have hcore : (s.onRemote msg).objects.map core = s.objects.map core := by
    rw [map_objects, map_objects, map_onRemote fun _ _ => rfl]
  rw [findVar_core, findVar_core, hcore]

/-- **Whatever a peer sends, the outline stays**, and so does every variable of an object that the peer
does not own. -/
theorem receive_others (hcb : s.callbacks = serverCallbacks) (pb : Protobuf) (past : Mem) {p : Peer}
    (packet : Bytes) : (s.receive pb past p packet).2.outline = s.outline ∧
      ∀ address : UInt32 × Bytes, s.outline.owner address.1 ≠ some p →
        (s.receive pb past p packet).2.findVar address = s.findVar address := by
  by_cases hrun : s.running = true
  swap
  · simp [receive, processRecv, hrun]
  by_cases hlen : 2 ≤ packet.length
  swap
  · simp [receive, processRecv, hrun, Nat.lt_of_not_le hlen]
  rw [receive_server hcb hrun hlen]
  cases listMsgOf pb packet with
  | some msg => exact ⟨outline_onRemote msg s, fun address _ => findVar_onRemote address msg s⟩
  | none =>
    dsimp only
    split_ifs
    swap
    · exact ⟨rfl, fun _ _ => rfl⟩
    refine handleSnapshot_inv (I := fun s' : NetSystem => s'.outline = s.outline ∧
      ∀ address : UInt32 × Bytes, s.outline.owner address.1 ≠ some p →
        s'.findVar address = s.findVar address) ?_ _ _ ⟨rfl, fun _ _ => rfl⟩
    rintro f s' ⟨houtline, hvars⟩
    rw [actClient]
    split_ifs
    swap
    · exact ⟨houtline, hvars⟩
    refine ⟨(outline_readEntityUpdate f _ s').trans houtline, fun address ha => ?_⟩
    rw [← hvars address ha, readEntityUpdate_some_eq, houtline]
    split_ifs with ho
    · have hne : f.variable ≠ address := fun e => ha (congrArg Prod.fst e ▸ ho)
      rw [findVar_updateVar (f := fun c => NetVar.readUpdate c f) fun _ _ => rfl]
      simp [hne]
    · rfl

end NetSystem

end Nettik
