import Mathlib.Data.List.Flatten
import Nettik.Entity.Teardown
import Nettik.World.Outline

/-!
# Net ids over the life of a server

`GetNextID` numbers the objects of a process with 32 bits.

* `Census`: the handles of the live objects and the two counters; `Fewer`, `Builds`: what can happen to them;
* `Turn`, `serve`: what a server does in its life; `numbering_serve`: every turn keeps the objects numbered;
* **`ids_distinct_iff`**: when the net ids of the live objects are distinct.
-/

namespace Nettik

open ByteMem Loops Links

/-! ## The live objects and the counters -/

structure Census where
  handles : List ObjRef
  totalEntities : UInt32
  nextRef : ℕ

namespace Census

/-- Some objects are gone. -/
structure Fewer (a b : Census) : Prop where
  handles : b.handles.Sublist a.handles
  total : b.totalEntities = a.totalEntities
  next : b.nextRef = a.nextRef

/-- One object is new. -/
structure Builds (a b : Census) : Prop where
  handles : b.handles.Perm (a.handles ++ [⟨a.nextRef, a.totalEntities⟩])
  total : b.totalEntities = a.totalEntities + 1
  next : b.nextRef = a.nextRef + 1

/-- An object's net id is the number of objects built before it, in 32 bits. -/
structure Numbered (r : Census) : Prop where
  total : r.totalEntities = UInt32.ofNat r.nextRef
  netID : ∀ h ∈ r.handles, h.netID = UInt32.ofNat h.ref
  lt : ∀ h ∈ r.handles, h.ref < r.nextRef
  nodup : (r.handles.map ObjRef.ref).Nodup

variable {a b : Census}

theorem Fewer.refl (a : Census) : a.Fewer a := ⟨List.Sublist.refl _, rfl, rfl⟩

theorem Fewer.trans {c : Census} (h : a.Fewer b) (h' : b.Fewer c) : a.Fewer c :=
  ⟨h'.handles.trans h.handles, h'.total.trans h.total, h'.next.trans h.next⟩

theorem Numbered.fewer (h : a.Numbered) (hnext : a.Fewer b) : b.Numbered where
  total := by rw [hnext.total, hnext.next, h.total]
  netID x hx := h.netID x (hnext.handles.subset hx)
  lt x hx := by
    rw [hnext.next]
    exact h.lt x (hnext.handles.subset hx)
  nodup := h.nodup.sublist (hnext.handles.map ObjRef.ref)

theorem Numbered.builds (h : a.Numbered) (hnext : a.Builds b) : b.Numbered := by
  have hmem : ∀ x ∈ b.handles, x ∈ a.handles ∨ x = ⟨a.nextRef, a.totalEntities⟩ := fun x hx =>
    (List.mem_append.mp (hnext.handles.subset hx)).imp_right List.mem_singleton.mp
  refine ⟨?_, fun x hx => ?_, fun x hx => ?_, ?_⟩
  · rw [hnext.total, hnext.next, h.total, UInt32.ofNat_add]
    rfl
  · rcases hmem x hx with hx | rfl
    · exact h.netID x hx
    · exact h.total
  · rw [hnext.next]
    rcases hmem x hx with hx | rfl
    · exact Nat.lt_succ_of_lt (h.lt x hx)
    · exact Nat.lt_succ_self _
  · have hnew : a.nextRef ∉ a.handles.map ObjRef.ref := fun hx => by
      obtain ⟨x, hx, href⟩ := List.mem_map.mp hx
      exact absurd (h.lt x hx) (by rw [href]; exact lt_irrefl _)
    rw [(hnext.handles.map ObjRef.ref).nodup_iff, List.map_append, List.map_singleton]
    exact h.nodup.append (List.nodup_singleton _) (by simpa using hnew)

/-- Net ids repeat with the period of the counter. -/
theorem Numbered.nodup_iff (h : a.Numbered) : (a.handles.map ObjRef.netID).Nodup ↔
    (a.handles.map fun x => x.ref % 2 ^ 32).Nodup := by
  unfold List.Nodup
  rw [List.pairwise_map, List.pairwise_map]
  refine List.Pairwise.iff_of_mem fun {x y} hx hy => not_congr ?_
  rw [h.netID x hx, h.netID y hy, ← UInt32.toNat_inj, UInt32.toNat_ofNat', UInt32.toNat_ofNat']

theorem Numbered.nodup_of_le (h : a.Numbered) (hle : a.nextRef ≤ 2 ^ 32) :
    (a.handles.map fun x => x.ref % 2 ^ 32).Nodup := by
  have hmod : (a.handles.map fun x => x.ref % 2 ^ 32) = a.handles.map ObjRef.ref :=
    List.map_congr_left fun x hx => Nat.mod_eq_of_lt ((h.lt x hx).trans_le hle)
  rw [hmod]
  exact h.nodup

end Census

def VirtualInstance.handles (i : VirtualInstance) : List ObjRef := i.objects.map NetObject.handle

namespace NetSystem

def census (s : NetSystem) : Census := ⟨s.objects.map NetObject.handle, s.totalEntities, s.nextRef⟩

theorem census_handles (s : NetSystem) : s.census.handles = s.instances.flatMap VirtualInstance.handles := by
  rw [census, objects, List.map_flatMap]
  rfl

theorem distinctIDs_iff (s : NetSystem) : s.DistinctIDs ↔ (s.census.handles.map ObjRef.netID).Nodup := by
  rw [DistinctIDs, census, List.map_map]
  unfold List.Nodup
  rw [List.pairwise_map]
  rfl

/-- A step that leaves the containers and the objects in them as they are. -/
theorem fewer_of_map {s s' : NetSystem}
    (h : (s'.instances.map fun i => i.managers.map fun m => m.objects.map NetObject.handle) =
      s.instances.map fun i => i.managers.map fun m => m.objects.map NetObject.handle)
    (htotal : s'.totalEntities = s.totalEntities) (hnext : s'.nextRef = s.nextRef) :
    s.census.Fewer s'.census := by
  refine ⟨?_, htotal, hnext⟩
  have hobjects : s'.census.handles = s.census.handles := by
    rw [census, census, map_objects, map_objects, h]
  rw [hobjects]

/-- A change of one instance that adds no object. -/
theorem fewer_modifyInstance {name : Bytes} {f : VirtualInstance → VirtualInstance} (s : NetSystem)
    (hf : ∀ i, (f i).handles.Sublist i.handles) : s.census.Fewer (s.modifyInstance name f).census := by
  refine ⟨?_, rfl, rfl⟩
  rw [census_handles, census_handles]
  exact sublist_flatMap_modifyFirst fun i _ => hf i

end NetSystem

/-! ## What the server does -/

theorem NetObject.handle_snapped (r b : Bool) (o : NetObject) : (o.snapped r b).handle = o.handle := by
  rw [snapped]
  split_ifs <;> rfl

/-- The objects of a manager. -/
def CEntities.handles (m : CEntities) : List ObjRef := m.objects.map NetObject.handle

theorem VirtualInstance.handles_eq (i : VirtualInstance) :
    i.handles = i.managers.flatMap CEntities.handles := by
  rw [handles, objects, List.map_flatMap]
  rfl

theorem VirtualInstance.handles_snapped (r b : Bool) (i : VirtualInstance) :
    (i.snapped r b).handles = i.handles := by
  have hmanager : ∀ m : CEntities, (m.snapped r b).handles = m.handles := fun m => by
    rw [CEntities.handles, CEntities.snapped, List.map_map]
    exact List.map_congr_left fun o _ => o.handle_snapped r b
  rw [handles_eq, handles_eq, snapped, List.flatMap_map]
  exact List.flatMap_congr fun m _ => hmanager m

namespace NetSystem

variable {s : NetSystem} {i : VirtualInstance} {m : CEntities}

/-- A snapshot of everything. -/
theorem fewer_visitInstances (hrun : s.running = true) (b : Bool) (before : VirtualInstance → List Send)
    (out : SnapshotStream → SnapshotStream × List Send) :
    s.census.Fewer (s.visitInstances b before out).1.census := by
  rw [visitInstances_fst hrun]
  refine fewer_of_map ?_ rfl rfl
  simp only [mapObjects, VirtualInstance.mapObjects, CEntities.mapObjects, List.map_map,
    Function.comp_def, NetObject.handle_snapped]

theorem fewer_updateVar (address : UInt32 × Bytes) (f : UInt32 → NetVar → NetVar) (s : NetSystem) :
    s.census.Fewer (s.updateVar address f).census := by
  refine fewer_of_map ?_ rfl rfl
  refine map_modifyFirst fun i _ => ?_
  refine map_modifyFirst fun m _ => ?_
  exact map_modifyFirst fun o _ => rfl

/-- **Packets** neither make nor free objects on a server. -/
theorem fewer_receive (hcb : s.callbacks = serverCallbacks) (hrun : s.running = true) (pb : Protobuf)
    (past : Mem) (peer : Peer) (packet : Bytes) :
    s.census.Fewer (s.receive pb past peer packet).2.census := by
  by_cases hlen : 2 ≤ packet.length
  swap
  · rw [receive, processRecv, if_neg (by simp [hrun]), if_pos (by omega)]
    exact Census.Fewer.refl _
  rw [receive_server hcb hrun hlen]
  cases listMsgOf pb packet with
  | some msg => exact fewer_of_map (map_onRemote (fun _ _ => rfl) msg s) rfl rfl
  | none =>
    dsimp only
    split_ifs
    swap
    · exact Census.Fewer.refl _
    refine handleSnapshot_inv (I := fun s' : NetSystem => s.census.Fewer s'.census) (fun f s' hs => ?_) _ _
      (Census.Fewer.refl _)
    rw [actClient]
    split_ifs
    swap
    · exact hs
    rw [readEntityUpdate_some_eq]
    split_ifs
    · exact hs.trans (fewer_updateVar _ _ s')
    · exact hs

/-- **A `Build`** makes one object. -/
theorem builds_build (h : Builds s i m) (pb : Protobuf) (owner : Option Peer) :
    s.census.Builds (s.build pb i.name m.name owner).1.census := by
  have hextended : ((s.extendedInstance i m owner).handles).Perm
      (i.handles ++ [⟨s.nextRef, s.totalEntities⟩]) := by
    have hflushed : i.flushed.handles = i.handles := by
      rw [VirtualInstance.flushed, VirtualInstance.handles_snapped, VirtualInstance.handles_snapped]
    rw [← hflushed, VirtualInstance.handles_eq, VirtualInstance.handles_eq i.flushed]
    refine perm_flatMap_modifyFirst (getManager_flushed h.manager_eq) ?_
    rw [CEntities.handles, List.map_append]
    rfl
  have hbuilt : ∀ i' : VirtualInstance, i'.handles.Perm (i.handles ++ [⟨s.nextRef, s.totalEntities⟩]) →
      ((modifyFirst (·.name == i.name) (fun _ => i') s.instances).flatMap VirtualInstance.handles).Perm
        (s.census.handles ++ [⟨s.nextRef, s.totalEntities⟩]) := fun i' hi' => by
    rw [census_handles]
    exact perm_flatMap_modifyFirst h.instance_eq hi'
  cases owner with
  | none =>
    rw [build_none h]
    exact ⟨by rw [census_handles]; exact hbuilt _ hextended, rfl, rfl⟩
  | some owner =>
    rw [build_some h]
    refine ⟨?_, rfl, rfl⟩
    rw [census_handles]
    refine hbuilt _ ?_
    rwa [VirtualInstance.handles_snapped, VirtualInstance.handles_snapped]

/-- A manager that is removed takes its objects with it. -/
theorem handles_eraseP_sublist (name : Bytes) (i : VirtualInstance) :
    ({ i with managers := i.managers.eraseP (·.name == name) } : VirtualInstance).handles.Sublist i.handles := by
  rw [VirtualInstance.handles_eq, VirtualInstance.handles_eq]
  exact List.eraseP_sublist.flatMap _

theorem handles_createManager (name : Bytes) (m : CEntities) (hm : m.objects = []) (i : VirtualInstance) :
    (if (i.getManager name).isSome then i else { i with managers := i.managers ++ [m] }).handles = i.handles := by
  split_ifs
  · rfl
  · rw [VirtualInstance.handles_eq, VirtualInstance.handles_eq, List.flatMap_append, List.flatMap_singleton,
      CEntities.handles, hm]
    exact List.append_nil _

/-! ## The life of a server -/

/-- What a server does, and what is done to it. -/
inductive Turn where
  | createInstance (name : Bytes) (held : ObjRef → Bool)
  | deleteInstance (name : Bytes) (held : ObjRef → Bool)
  | createManager (instanceName name : Bytes) (cls : ObjectClass)
  | destroyManager (instanceName name : Bytes) (held : ObjRef → Bool)
  | build (instanceName managerName : Bytes) (pOwner : Option Peer)
  | postUpdate (instanceName managerName : Bytes) (held : ObjRef → Bool)
  | write (address : UInt32 × Bytes) (w : Write)
  | snapshotUpdate
  | connect (peer : Peer)
  | receive (peer : Peer) (packet : Bytes)

def Turn.isBuild : Turn → Bool
  | .build _ _ _ => true
  | _ => false

def serve (pb : Protobuf) (past : Mem) (s : NetSystem) : Turn → NetSystem
  | .createInstance name held => (s.createInstance name held).1
  | .deleteInstance name held => (s.deleteInstance name held).1
  | .createManager instanceName name cls => (s.createManager instanceName name cls).2
  | .destroyManager instanceName name held => (s.destroyManager instanceName name held).1
  | .build instanceName managerName pOwner => (s.build pb instanceName managerName pOwner).1
  | .postUpdate instanceName managerName held => (s.postUpdate instanceName managerName held).1
  | .write address w => s.write address w
  | .snapshotUpdate => s.snapshotUpdate.1
  | .connect peer => (s.connectHandler pb peer).1
  | .receive peer packet => (s.receive pb past peer packet).2

/-- A running server whose objects are numbered. -/
structure Numbering (s : NetSystem) : Prop where
  server : s.server = true
  running : s.running = true
  callbacks : s.callbacks = serverCallbacks
  numbered : s.census.Numbered

variable {pb : Protobuf} {past : Mem}

theorem fewer_serve (h : s.Numbering) {t : Turn} (ht : t.isBuild = false) :
    s.census.Fewer (s.serve pb past t).census := by
  cases t with
  | createInstance name held =>
    rw [serve, createInstance]
    cases s.getInstance name with
    | some i => exact fewer_modifyInstance s fun _ => List.nil_sublist _
    | none =>
      refine ⟨?_, rfl, rfl⟩
      have hempty : (⟨name, [], 0⟩ : VirtualInstance).handles = [] := rfl
      rw [census_handles, census_handles, List.flatMap_append, List.flatMap_singleton, hempty, List.append_nil]
  | deleteInstance name held =>
    rw [serve, deleteInstance]
    cases s.getInstance name with
    | some i =>
      refine ⟨?_, rfl, rfl⟩
      rw [census_handles, census_handles]
      exact List.eraseP_sublist.flatMap _
    | none => exact Census.Fewer.refl _
  | createManager instanceName name cls =>
    rw [serve, createManager]
    split_ifs with hname
    · refine fewer_modifyInstance s fun i => ?_
      rw [handles_createManager name _ rfl]
    · exact Census.Fewer.refl _
  | destroyManager instanceName name held =>
    rw [serve, destroyManager]
    cases (s.getInstance instanceName).bind (·.getManager name) with
    | some m => exact fewer_modifyInstance s fun i => handles_eraseP_sublist name i
    | none => exact Census.Fewer.refl _
  | build instanceName managerName pOwner => exact absurd ht (by simp [Turn.isBuild])
  | postUpdate instanceName managerName held =>
    rw [serve, postUpdate]
    cases (s.getInstance instanceName).bind (·.getManager managerName) with
    | some m =>
      dsimp only
      split_ifs
      · refine fewer_modifyInstance s fun i => ?_
        rw [VirtualInstance.handles_eq, VirtualInstance.handles_eq]
        exact sublist_flatMap_modifyFirst fun m _ => List.filter_sublist.map _
      · exact Census.Fewer.refl _
    | none => exact Census.Fewer.refl _
  | write address w => exact fewer_updateVar address _ s
  | snapshotUpdate => exact fewer_visitInstances h.running false _ _
  | connect peer => exact fewer_visitInstances h.running true _ _
  | receive peer packet => exact fewer_receive h.callbacks h.running pb past peer packet

/-- A `Build` makes an object, or nothing when it does not find its manager. -/
theorem build_cases (h : s.Numbering) (instanceName managerName : Bytes) (pOwner : Option Peer) :
    s.build pb instanceName managerName pOwner = (s, []) ∨
      ∃ i m, i.name = instanceName ∧ m.name = managerName ∧ Builds s i m := by
  cases hi : s.getInstance instanceName with
  | none =>
    refine Or.inl ?_
    rw [build, hi]
  | some i =>
    cases hm : i.getManager managerName with
    | none =>
      refine Or.inl ?_
      rw [build, hi]
      simp only [hm]
    | some m =>
      have hname : i.name = instanceName := by
        rw [getInstance] at hi
        simpa using List.find?_some hi
      obtain rfl := name_of_getManager hm
      subst hname
      exact Or.inr ⟨i, m, rfl, rfl, h.server, h.running, hi, hm⟩

/-- What no turn changes. -/
theorem kept_serve (h : s.Numbering) (t : Turn) : (s.serve pb past t).server = s.server ∧
    (s.serve pb past t).running = s.running ∧ (s.serve pb past t).callbacks = s.callbacks := by
  cases t with
  | receive peer packet =>
    have houtline := (receive_others h.callbacks pb past (p := peer) packet).1
    exact ⟨congrArg Outline.server houtline, congrArg Outline.running houtline,
      congrArg Outline.callbacks houtline⟩
  | build instanceName managerName pOwner =>
    rw [serve]
    rcases build_cases h instanceName managerName pOwner with hnone | ⟨i, m, rfl, rfl, hbuilds⟩
    · rw [hnone]
      exact ⟨rfl, rfl, rfl⟩
    · cases pOwner with
      | none =>
        rw [build_none hbuilds]
        exact ⟨rfl, rfl, rfl⟩
      | some owner =>
        rw [build_some hbuilds]
        exact ⟨rfl, rfl, rfl⟩
  | createInstance name held =>
    rw [serve, createInstance]
    cases s.getInstance name <;> exact ⟨rfl, rfl, rfl⟩
  | deleteInstance name held =>
    rw [serve, deleteInstance]
    cases s.getInstance name <;> exact ⟨rfl, rfl, rfl⟩
  | createManager instanceName name cls =>
    rw [serve, createManager]
    split_ifs <;> exact ⟨rfl, rfl, rfl⟩
  | destroyManager instanceName name held =>
    rw [serve, destroyManager]
    cases (s.getInstance instanceName).bind (·.getManager name) <;> exact ⟨rfl, rfl, rfl⟩
  | postUpdate instanceName managerName held =>
    rw [serve, postUpdate]
    cases (s.getInstance instanceName).bind (·.getManager managerName) with
    | none => exact ⟨rfl, rfl, rfl⟩
    | some m =>
      dsimp only
      split_ifs <;> exact ⟨rfl, rfl, rfl⟩
  | write address w => exact ⟨rfl, rfl, rfl⟩
  | snapshotUpdate => exact ⟨rfl, rfl, rfl⟩
  | connect peer => exact ⟨rfl, rfl, rfl⟩

/-- **Every turn keeps the numbering.** -/
theorem numbering_serve (h : s.Numbering) (t : Turn) : (s.serve pb past t).Numbering ∧
    (s.serve pb past t).nextRef ≤ s.nextRef + if t.isBuild then 1 else 0 := by
  have hkept : (s.serve pb past t).server = s.server ∧ (s.serve pb past t).running = s.running ∧
      (s.serve pb past t).callbacks = s.callbacks := kept_serve h t
  obtain ⟨hserver, hrun, hcb⟩ := hkept
  have hcensus : (s.serve pb past t).census.Numbered ∧
      (s.serve pb past t).nextRef ≤ s.nextRef + if t.isBuild then 1 else 0 := by
    cases ht : t.isBuild with
    | false =>
      have hfewer : s.census.Fewer (s.serve pb past t).census := fewer_serve h ht
      exact ⟨h.numbered.fewer hfewer, hfewer.next.le⟩
    | true =>
      cases t with
      | build instanceName managerName pOwner =>
        rw [serve]
        rcases build_cases h instanceName managerName pOwner with hnone | ⟨i, m, rfl, rfl, hbuilds⟩
        · rw [hnone]
          exact ⟨h.numbered, Nat.le_succ _⟩
        · have hnew := builds_build hbuilds pb pOwner
          exact ⟨h.numbered.builds hnew, hnew.next.le⟩
      | _ => exact absurd ht (by simp [Turn.isBuild])
  exact ⟨⟨hserver.trans h.server, hrun.trans h.running, hcb.trans h.callbacks, hcensus.1⟩, hcensus.2⟩

theorem numbering_run (h : s.Numbering) (turns : List Turn) :
    (run (serve pb past) s turns).Numbering ∧
      (run (serve pb past) s turns).nextRef ≤ s.nextRef + turns.countP Turn.isBuild := by
  induction turns generalizing s with
  | nil => exact ⟨h, le_rfl⟩
  | cons t turns ih =>
    have hserve : (s.serve pb past t).Numbering ∧ (s.serve pb past t).nextRef ≤ _ := numbering_serve h t
    obtain ⟨hrun, hcount⟩ := ih hserve.1
    refine ⟨hrun, hcount.trans ?_⟩
    rw [List.countP_cons]
    have hle := hserve.2
    omega

/-- **Net ids.** Over the whole life of a server, an object's net id is the number of objects built before
it, in 32 bits: the net ids of the live objects are distinct exactly if no two of them were built a multiple
of 2³² builds apart, and they are while there were at most 2³² builds. -/
theorem ids_distinct_iff (pb : Protobuf) (past : Mem) (h : s.Numbering) (turns : List Turn) :
    ((run (serve pb past) s turns).DistinctIDs ↔
      ((run (serve pb past) s turns).objects.map fun o => o.ref % 2 ^ 32).Nodup) ∧
    (∀ o ∈ (run (serve pb past) s turns).objects, o.netID = UInt32.ofNat o.ref) ∧
    (s.nextRef + turns.countP Turn.isBuild ≤ 2 ^ 32 → (run (serve pb past) s turns).DistinctIDs) := by
  have hturns : (run (serve pb past) s turns).Numbering ∧
      (run (serve pb past) s turns).nextRef ≤ s.nextRef + turns.countP Turn.isBuild := numbering_run h turns
  obtain ⟨hrun, hcount⟩ := hturns
  have hiff := hrun.numbered.nodup_iff
  rw [← distinctIDs_iff] at hiff
  refine ⟨?_, fun o ho => hrun.numbered.netID o.handle (List.mem_map_of_mem ho), fun hle => ?_⟩
  · rw [hiff, census, List.map_map]
    rfl
  · exact hiff.mpr (hrun.numbered.nodup_of_le (hcount.trans hle))

/-- A server as its constructor leaves it, once it runs. -/
def bareServer : NetSystem := { server := true, callbacks := serverCallbacks }

theorem bareServer_numbering : bareServer.Numbering :=
  ⟨rfl, rfl, rfl, rfl, by simp [census, bareServer, objects], by simp [census, bareServer, objects], by
    simp [census, bareServer, objects]⟩

/-- Four objects are built; the first one is freed, and the manager of the second one is removed. -/
def lifetime : List Turn :=
  [.createInstance [112] fun _ => false, .createManager [112] [112] .bare, .createManager [112] [113] .bare,
    .build [112] [112] none, .build [112] [113] (some 3), .connect 4, .receive 4 [1, 2],
    .postUpdate [112] [112] fun _ => false, .build [112] [112] (some 4), .snapshotUpdate,
    .build [112] [112] none, .destroyManager [112] [113] fun _ => true]

theorem ids_distinct_iff_lifetime :
    (run (serve Protobuf.wire Mem.zero) bareServer lifetime).objects.map NetObject.netID = [2, 3] ∧
      (run (serve Protobuf.wire Mem.zero) bareServer lifetime).DistinctIDs :=
  ⟨by decide +kernel,
    (ids_distinct_iff Protobuf.wire Mem.zero bareServer_numbering lifetime).2.2 (by decide)⟩

end NetSystem

end Nettik
