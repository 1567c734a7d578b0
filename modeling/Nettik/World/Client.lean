import Nettik.World.Tick

/-!
# Clients

What the packets of a server do to a client.

* `receive_packetOf`, `receive_add`: the handlers a packet reaches;
* **`readEntityUpdate_eq_map`**: with distinct net ids, a data frame updates every object of its id;
* `entAllocate_new`, `entDeallocate_known`: what the other frames do to a manager that is known.
-/

namespace Nettik

open ByteMem Loops

/-! ## Searches -/

theorem CEntities.getByNetID_isSome {id : UInt32} {m : CEntities} :
    (m.getByNetID id).isSome = true ↔ ∃ o ∈ m.objects, o.netID = id := by
  simp [getByNetID]

theorem VirtualInstance.findObject_isSome {id : UInt32} {i : VirtualInstance} :
    (i.findObject id).isSome = true ↔ ∃ m ∈ i.managers, ∃ o ∈ m.objects, o.netID = id := by
  simp only [findObject, List.findSome?_isSome_iff, CEntities.getByNetID_isSome]

/-- The objects in the order the searches visit them. -/
def VirtualInstance.objects (i : VirtualInstance) : List NetObject :=
  i.managers.flatMap CEntities.objects

def NetSystem.objects (s : NetSystem) : List NetObject := s.instances.flatMap VirtualInstance.objects

/-- Net ids are distinct. -/
def NetSystem.DistinctIDs (s : NetSystem) : Prop := s.objects.Pairwise fun a b => a.netID ≠ b.netID

def CEntities.mapObjects (f : NetObject → NetObject) (m : CEntities) : CEntities :=
  { m with objects := m.objects.map f }

def VirtualInstance.mapObjects (f : NetObject → NetObject) (i : VirtualInstance) : VirtualInstance :=
  { i with managers := i.managers.map (CEntities.mapObjects f) }

def NetSystem.mapObjects (f : NetObject → NetObject) (s : NetSystem) : NetSystem :=
  { s with instances := s.instances.map (VirtualInstance.mapObjects f) }

/-- Apply `f` to the objects of one net id. -/
def atID (id : UInt32) (f : NetObject → NetObject) (o : NetObject) : NetObject :=
  if o.netID = id then f o else o

section

variable {id : UInt32} {f : NetObject → NetObject}

theorem CEntities.modifyObject_eq {m : CEntities}
    (h : m.objects.Pairwise fun a b => a.netID ≠ b.netID) :
    m.modifyObject id f = m.mapObjects (atID id f) := by
  rw [modifyObject, mapObjects, modifyFirst_eq_map (h.imp fun hab ha => ?_)]
  · simp only [beq_iff_eq]
    rfl
  · rw [beq_eq_false_iff_ne]
    intro hb
    exact hab ((beq_iff_eq.mp ha).trans hb.symm)

theorem CEntities.mapObjects_of_none {m : CEntities} (h : ¬ ∃ o ∈ m.objects, o.netID = id) :
    m.mapObjects (atID id f) = m := by
  have hmap : m.objects.map (atID id f) = m.objects := by
    conv_rhs => rw [← m.objects.map_id]
    exact List.map_congr_left fun o ho => if_neg fun e => h ⟨o, ho, e⟩
  rw [mapObjects, hmap]

theorem VirtualInstance.modifyObject_eq {i : VirtualInstance}
    (h : i.objects.Pairwise fun a b => a.netID ≠ b.netID) :
    i.modifyObject id f = i.mapObjects (atID id f) := by
  obtain ⟨hin, hacross⟩ := List.pairwise_flatMap.mp h
  rw [modifyObject, mapObjects, modifyFirst_eq_map (hacross.imp fun hab ha => ?_)]
  · congr 1
    refine List.map_congr_left fun m hm => ?_
    by_cases hs : (m.getByNetID id).isSome = true
    · rw [if_pos hs, CEntities.modifyObject_eq (hin m hm)]
    · rw [if_neg hs, CEntities.mapObjects_of_none fun e => hs (CEntities.getByNetID_isSome.mpr e)]
  · obtain ⟨o, ho, hid⟩ := CEntities.getByNetID_isSome.mp ha
    by_contra hb
    obtain ⟨o', ho', hid'⟩ := CEntities.getByNetID_isSome.mp (Bool.not_eq_false _ ▸ hb)
    exact hab o ho o' ho' (hid.trans hid'.symm)

theorem VirtualInstance.mapObjects_of_none {i : VirtualInstance}
    (h : ¬ ∃ m ∈ i.managers, ∃ o ∈ m.objects, o.netID = id) : i.mapObjects (atID id f) = i := by
  have hmap : i.managers.map (CEntities.mapObjects (atID id f)) = i.managers := by
    conv_rhs => rw [← i.managers.map_id]
    exact List.map_congr_left fun m hm =>
      CEntities.mapObjects_of_none fun e => h ⟨m, hm, e⟩
  rw [mapObjects, hmap]

namespace NetSystem

variable {s : NetSystem}

theorem modifyObject_eq (h : s.DistinctIDs) : s.modifyObject id f = s.mapObjects (atID id f) := by
  obtain ⟨hin, hacross⟩ := List.pairwise_flatMap.mp h
  rw [modifyObject, mapObjects, modifyFirst_eq_map (hacross.imp fun hab ha => ?_)]
  · congr 1
    refine List.map_congr_left fun i hi => ?_
    by_cases hs : (i.findObject id).isSome = true
    · rw [if_pos hs, VirtualInstance.modifyObject_eq (hin i hi)]
    · rw [if_neg hs,
        VirtualInstance.mapObjects_of_none fun e => hs (VirtualInstance.findObject_isSome.mpr e)]
  · obtain ⟨m, hm, o, ho, hid⟩ := VirtualInstance.findObject_isSome.mp ha
    by_contra hb
    obtain ⟨m', hm', o', ho', hid'⟩ :=
      VirtualInstance.findObject_isSome.mp (Bool.not_eq_false _ ▸ hb)
    exact hab o (List.mem_flatMap.mpr ⟨m, hm, ho⟩) o' (List.mem_flatMap.mpr ⟨m', hm', ho'⟩)
      (hid.trans hid'.symm)

/-- **With distinct net ids a frame without an owner updates every object of its id.** -/
theorem readEntityUpdate_eq_map (h : s.DistinctIDs) (frame : Frame) :
    s.readEntityUpdate frame none = s.mapObjects (atID frame.netID (NetObject.readUpdate frame)) := by
  rw [readEntityUpdate]
  cases hf : s.findObject frame.netID with
  | some o => exact modifyObject_eq h
  | none =>
    rw [findObject, List.findSome?_eq_none_iff] at hf
    have hmap : s.instances.map (VirtualInstance.mapObjects
        (atID frame.netID (NetObject.readUpdate frame))) = s.instances := by
      conv_rhs => rw [← s.instances.map_id]
      refine List.map_congr_left fun i hi => VirtualInstance.mapObjects_of_none fun e => ?_
      rw [← VirtualInstance.findObject_isSome, hf i hi] at e
      exact absurd e (by simp)
    rw [mapObjects, hmap]

end NetSystem

end

/-! ## Packets -/

/-- A snapshot goes to every handler that is bound to snapshots. -/
theorem receive_packetOf_eq (pb : Protobuf) (past : Mem) (server : Peer) {c : NetSystem}
    (hrun : c.running = true) (sequence : UInt32) {fs : List Frame} (hfit : ∀ f ∈ fs, f.Fits) :
    c.receive pb past server (packetOf sequence fs) =
      throughout (NetSystem.runHandler pb (Mem.ofList (packetOf sequence fs) past)
        (packetOf sequence fs).length server) (c.handlersOf objectFrameCode) c := by
  have hcode : u16Of ((Mem.ofList (packetOf sequence fs) past).read 2) = objectFrameCode := by
    rw [packetOf_eq sequence hfit, SnapshotHeader.write, List.append_assoc,
      Mem.read_ofList (length_toLE 2 _), u16Of_toLE]
  have htwo : ¬ (packetOf sequence fs).length < 2 := by
    rw [packetOf_eq sequence hfit, List.length_append, SnapshotHeader.length_write]
    unfold sizeofHeader
    omega
  rw [NetSystem.receive, NetSystem.processRecv, if_neg (by simp [hrun]), if_neg htwo, hcode]

theorem receive_packetOf (pb : Protobuf) (past : Mem) (server : Peer) {c : NetSystem}
    (hrun : c.running = true) (hcb : c.callbacks = clientCallbacks) (sequence : UInt32)
    {fs : List Frame} (hlen : fs.length < 65536) (hfit : ∀ f ∈ fs, f.Fits) :
    c.receive pb past server (packetOf sequence fs) =
      throughout NetSystem.actServer (fs.map Frame.extended) c := by
  have hhandlers : c.handlersOf objectFrameCode = [.handleEntSnapshot] := by
    rw [NetSystem.handlersOf, hcb]
    rfl
  rw [receive_packetOf_eq pb past server hrun sequence hfit, hhandlers]
  simp only [throughout, NetSystem.runHandler, NetSystem.handleEntSnapshot]
  rw [handleSnapshot_packetOf _ sequence hlen hfit]
  rcases throughout NetSystem.actServer (fs.map Frame.extended) c with ⟨_ | _, _⟩ <;> rfl

theorem receive_add {pb : Protobuf} (hpb : pb.RoundTrips) (past : Mem) (server : Peer)
    {c : NetSystem} (hrun : c.running = true) (hcb : c.callbacks = clientCallbacks) (m : MapAdd) :
    c.receive pb past server ((ListMsg.add m).packet pb) = (.ok (), c.onRemoteAdd m) := by
  have hcode : u16Of ((Mem.ofList ((ListMsg.add m).packet pb) past).read 2) = internalEvtListAdd := by
    rw [ListMsg.packet, Mem.read_ofList (length_toLE 2 _), u16Of_toLE]
  have hbytes : NetSystem.protoBytes (Mem.ofList ((ListMsg.add m).packet pb) past)
      ((ListMsg.add m).packet pb).length = pb.serializeAdd m := by
    rw [NetSystem.protoBytes, ListMsg.packet, Mem.shift_ofList (length_toLE 2 _), List.length_append,
      length_toLE, Nat.add_sub_cancel_left]
    simpa using Mem.read_ofList (l := pb.serializeAdd m) rfl [] past
  have hhandlers : c.handlersOf internalEvtListAdd = [.onRemoteAdd] := by
    rw [NetSystem.handlersOf, hcb]
    rfl
  have htwo : ¬ ((ListMsg.add m).packet pb).length < 2 := by
    rw [ListMsg.packet, List.length_append, length_toLE]
    omega
  rw [NetSystem.receive, NetSystem.processRecv, if_neg (by simp [hrun]), if_neg htwo, hcode,
    hhandlers]
  simp only [throughout, NetSystem.runHandler, hbytes, hpb.add m, Outcome.andThen_ok]

/-! ## Frames that make and free objects -/

theorem takeWhile_name {name : Bytes} (h : (0 : UInt8) ∉ name) (r : Bytes) :
    (name ++ 0 :: r).takeWhile (· != 0) = name := by
  have hall : ∀ b ∈ name, (b != 0) = true := by
    intro b hb
    rw [bne_iff_ne]
    exact fun e => h (e ▸ hb)
  rw [List.takeWhile_append_of_pos hall]
  simp

/-- A creation or deletion names its instance. -/
theorem dataStr_extended {f : Frame} {instanceName : Bytes} (hdata : f.data = instanceName ++ [0])
    (hname : (0 : UInt8) ∉ instanceName) : f.extended.dataStr = instanceName := by
  rw [Frame.dataStr, Frame.extended, hdata, List.append_assoc]
  exact takeWhile_name hname _

theorem entAllocate_new {frame : Frame} {s : NetSystem} {i : VirtualInstance} {m : CEntities}
    (hi : s.getInstance frame.dataStr = some i) (hm : i.getManager frame.name = some m)
    (hnew : m.getByNetID frame.netID = none) : s.entAllocate frame = (.ok (),
      { s.modifyInstance frame.dataStr (·.modifyManager frame.name
          (CEntities.buildLocal s.nextRef frame.netID frame.controller)) with
        nextRef := s.nextRef + 1
        controlledObjects :=
          if frame.controller = netControllerLocal then
            s.controlledObjects.insert frame.netID ⟨s.nextRef, frame.netID⟩
          else s.controlledObjects }) := by
  rw [NetSystem.entAllocate, hi]
  simp only [hm, hnew, Option.isNone_none, if_true]

theorem entDeallocate_known {frame : Frame} {s : NetSystem} {i : VirtualInstance} {m : CEntities}
    {object : NetObject} (hi : s.getInstance frame.dataStr = some i)
    (hm : i.getManager frame.name = some m) (hobject : m.getByNetID frame.netID = some object) :
    s.entDeallocate frame = (.ok (),
      { s.modifyInstance frame.dataStr (·.modifyManager frame.name (CEntities.freeLocal frame.netID)) with
        controlledObjects :=
          if object.isNetworkLocal then s.controlledObjects.erase frame.netID
          else s.controlledObjects }) := by
  rw [NetSystem.entDeallocate, hi]
  simp only [hm, hobject]

theorem VirtualInstance.modifyManager_eq {i : VirtualInstance} {name : Bytes}
    {f : CEntities → CEntities} (h : (i.managers.map CEntities.name).Nodup) :
    i.modifyManager name f =
      { i with managers := i.managers.map fun m => if m.name == name then f m else m } := by
  have hpair := List.pairwise_map.mp h
  rw [modifyManager, modifyFirst_eq_map (hpair.imp fun hab ha => ?_)]
  rw [beq_eq_false_iff_ne]
  exact fun hb => hab ((beq_iff_eq.mp ha).trans hb.symm)

/-- Names an instance and its managers can be found by after they travelled. -/
structure Named (instanceName managerName : Bytes) : Prop where
  instance_nul : (0 : UInt8) ∉ instanceName
  instance_lt : instanceName.length < maxEntvarData
  manager_nul : (0 : UInt8) ∉ managerName
  manager_le : managerName.length ≤ maxEntmgrName

theorem allocFrame_fits {instanceName managerName : Bytes} (h : Named instanceName managerName)
    (netID controller : UInt32) : (allocFrame instanceName managerName netID controller).Fits where
  name_nul := h.manager_nul
  name_lt := lt_of_le_of_lt h.manager_le (by decide)
  data_le := by
    have hlt := h.instance_lt
    simp only [allocFrame, List.length_append, List.length_singleton]
    omega

end Nettik
