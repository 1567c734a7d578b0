import Nettik.World.ListOps

/-!
# Rights on lists

Which list messages of a peer change a list that is not its own.

* `contents`: the elements of a list and what waits to be sent; `Ignores` the messages that change
  neither;
* **`receive_foreignLists_iff`**: the lists of other owners are untouched exactly when the message
  finds no list of theirs, or one that ignores it.
-/

namespace Nettik

open ByteMem Loops

namespace NetVarList

variable {ctx : ListContext} {l : NetVarList}

/-! ## Messages a list ignores -/

/-- What a list holds, and what it is about to send. -/
def contents (l : NetVarList) : (UInt32 → Option Bytes) × List QueuedPacket :=
  (fun k => l.find k, l.updateQueue)

/-- An addition of the element that is there, or one of the wrong size for a key that is there; an
update of the wrong size, to a missing key, or to the element that is there; the removal of a missing
key. Without the size error, the manager has at most one player. -/
def Ignores (players : List Peer) : ListMsg → NetVarList → Prop
  | .add m, l =>
    if m.value.length = l.size then l.find m.key = some m.value ∧ players.length ≤ 1 else m.key ∈ l.data
  | .update m, l =>
    m.key ∉ l.data ∨ m.value.length ≠ l.size ∨ l.find m.key = some m.value ∧ players.length ≤ 1
  | .remove m, l => m.key ∉ l.data ∧ players.length ≤ 1

theorem contents_eq_iff {l' : NetVarList} : l'.contents = l.contents ↔
    (∀ k, l'.find k = l.find k) ∧ l'.updateQueue = l.updateQueue := by
  rw [contents, contents, Prod.mk.injEq, funext_iff]

theorem update_eq_self_iff {f : UInt32 → Option Bytes} {key : UInt32} {value : Option Bytes} :
    (∀ k, (if k = key then value else f k) = f k) ↔ f key = value := by
  constructor
  · intro h
    simpa using (h key).symm
  · rintro rfl k
    split_ifs with hk
    · rw [hk]
    · rfl

/-- **A message leaves the contents alone exactly when the list ignores it.** -/
theorem onRemote_contents_iff (ctx : ListContext) (msg : ListMsg) (l : NetVarList) :
    (l.onRemote ctx msg).contents = l.contents ↔ l.Ignores ctx.players msg := by
  rw [contents_eq_iff]
  cases msg with
  | add m =>
    show _ ∧ (l.onRemoteAdd ctx m).updateQueue = _ ↔ _
    rw [Ignores]
    by_cases hsize : m.value.length = l.size
    · have hfind : ∀ k, (l.onRemote ctx (.add m)).find k = _ := find_onRemoteAdd hsize
      simp only [hfind]
      rw [if_pos hsize, update_eq_self_iff, onRemoteAdd_sized hsize]
      exact and_congr_right' (updateQueue_relay ctx _ _)
    · have heq : l.onRemoteAdd ctx m = l.subscript m.key := by rw [onRemoteAdd, if_neg hsize]
      have hfind : ∀ k, (l.onRemote ctx (.add m)).find k = (l.subscript m.key).find k :=
        fun k => congrArg (NetVarList.find k) heq
      simp only [hfind]
      rw [if_neg hsize, heq]
      constructor
      · rintro ⟨h, -⟩
        rw [mem_data_iff, ← h, ← mem_data_iff]
        exact mem_subscript _ _
      · intro h
        rw [subscript_of_mem h]
        exact ⟨fun k => rfl, rfl⟩
  | update m =>
    show _ ∧ (l.onRemoteUpdate ctx m).updateQueue = _ ↔ _
    rw [Ignores]
    by_cases happly : m.key ∈ l.data ∧ m.value.length = l.size
    · obtain ⟨hk, hsize⟩ := happly
      have hfind : ∀ k, (l.onRemote ctx (.update m)).find k =
          if k = m.key then some m.value else l.find k := by
        intro k
        show (l.onRemoteUpdate ctx m).find k = _
        rw [onRemoteUpdate_present hk hsize, find_relay, find_overwrite_sized hsize]
      simp only [hfind]
      rw [update_eq_self_iff, onRemoteUpdate_present hk hsize]
      simp only [hk, hsize, not_true_eq_false, ne_eq, false_or]
      exact and_congr_right' (updateQueue_relay ctx _ _)
    · have heq : l.onRemoteUpdate ctx m = l := by rw [onRemoteUpdate, if_neg happly]
      have hfind : ∀ k, (l.onRemote ctx (.update m)).find k = l.find k :=
        fun k => congrArg (NetVarList.find k) heq
      refine iff_of_true ⟨hfind, by rw [heq]⟩ ?_
      rcases not_and_or.mp happly with hk | hsize
      · exact Or.inl hk
      · exact Or.inr (Or.inl hsize)
  | remove m =>
    show _ ∧ (l.onRemoteRemove ctx m).updateQueue = _ ↔ _
    have hfind : ∀ k, (l.onRemote ctx (.remove m)).find k = _ := find_onRemoteRemove m
    have hqueue : (l.onRemoteRemove ctx m).updateQueue = l.updateQueue ↔ ctx.players.length ≤ 1 :=
      updateQueue_relay ctx _ _
    simp only [hfind]
    rw [update_eq_self_iff, hqueue, Ignores, mem_data_iff, Bool.not_eq_true,
      Option.isSome_eq_false_iff, Option.isNone_iff_eq_none]

end NetVarList

/-- **A view of the objects does not see a list change exactly when it does not see the change of the
object that holds the list.** -/
theorem NetSystem.map_modifyList_iff {β : Type} {view : NetObject → β} {target : AssociatedObject}
    {listID : UInt32} {f : ListContext → NetVarList → NetVarList} {s : NetSystem} :
    ((s.modifyList target listID f).instances.map fun i => i.managers.map fun m => m.objects.map view) =
        (s.instances.map fun i => i.managers.map fun m => m.objects.map view) ↔
      ∀ i, s.getInstance target.instanceName = some i →
        ∀ m, i.getManager target.managerName = some m →
          ∀ o, m.getByNetID target.networkCode = some o →
            view { o with
              lists := o.lists.modify listID.toNat
                (f ⟨⟨i.name, m.name, o.netID⟩, m.getPlayers, o.peer, listID⟩) } = view o := by
  unfold modifyList modifyInstance
  rw [map_modifyFirst_iff]
  refine forall_congr' fun i => imp_congr_right fun _ => ?_
  unfold VirtualInstance.modifyManager
  rw [map_modifyFirst_iff]
  refine forall_congr' fun m => imp_congr_right fun _ => ?_
  unfold CEntities.modifyObject
  exact map_modifyFirst_iff

/-! ## Lists of other owners -/

section Foreign

variable (p : Peer)

/-- The contents of the lists of an object that is not of `p`. -/
def NetObject.foreignLists (o : NetObject) :
    Option (List ((UInt32 → Option Bytes) × List QueuedPacket)) :=
  if o.peer = some p then none else some (o.lists.map NetVarList.contents)

/-- All lists of a server that belong to other peers or to nobody. -/
def NetSystem.foreignLists (s : NetSystem) :
    List (List (List (Option (List ((UInt32 → Option Bytes) × List QueuedPacket))))) :=
  s.instances.map fun i => i.managers.map fun m => m.objects.map (NetObject.foreignLists p)

/-- The message finds no list, a list of an object of `p`, or a list that ignores it. -/
def NetSystem.Permits (msg : ListMsg) (s : NetSystem) : Prop :=
  ∀ i, s.getInstance msg.target.instanceName = some i →
    ∀ m, i.getManager msg.target.managerName = some m →
      ∀ o, m.getByNetID msg.target.networkCode = some o →
        o.peer = some p ∨ ∀ l, o.lists[msg.listID.toNat]? = some l → l.Ignores m.getPlayers msg

variable {p} {s : NetSystem}

theorem NetObject.foreignLists_modify (o : NetObject) (n : ℕ) (f : NetVarList → NetVarList) :
    NetObject.foreignLists p { o with lists := o.lists.modify n f } = o.foreignLists p ↔
      o.peer = some p ∨ ∀ l, o.lists[n]? = some l → (f l).contents = l.contents := by
  unfold foreignLists
  by_cases hp : o.peer = some p
  · simp [hp]
  · simp only [hp, if_false, Option.some.injEq, false_or]
    exact map_modify_iff

/-- **A list message leaves the lists of others alone exactly when it is permitted.** -/
theorem foreignLists_onRemote (msg : ListMsg) :
    (s.onRemote msg).foreignLists p = s.foreignLists p ↔ s.Permits p msg := by
  unfold NetSystem.foreignLists NetSystem.onRemote
  rw [NetSystem.map_modifyList_iff]
  refine forall_congr' fun i => imp_congr_right fun _ => forall_congr' fun m => imp_congr_right fun _ =>
    forall_congr' fun o => imp_congr_right fun _ => ?_
  rw [NetObject.foreignLists_modify]
  refine or_congr_right (forall_congr' fun l => imp_congr_right fun _ => ?_)
  exact NetVarList.onRemote_contents_iff _ msg l

end Foreign

/-- **What a peer's list message does to the lists of others.** No handler looks at the peer: the lists
of others stay as they are, and nothing is queued on them, exactly when the server is not running or
the message is permitted. The lists have the callbacks of their constructor and no `ScheduleCheck`. -/
theorem receive_foreignLists_iff {s : NetSystem} (hcb : s.callbacks = serverCallbacks)
    {pb : Protobuf} {packet : Bytes} {msg : ListMsg} (hmsg : listMsgOf pb packet = some msg)
    (hlen : 2 ≤ packet.length) (past : Mem) (p : Peer) :
    (s.receive pb past p packet).2.foreignLists p = s.foreignLists p ↔
      (s.running = true → s.Permits p msg) := by
  by_cases hrun : s.running = true
  · rw [imp_iff_right hrun, receive_server hcb hrun hlen, hmsg]
    exact foreignLists_onRemote msg
  · simp [NetSystem.receive, NetSystem.processRecv, hrun]

/-- An object of each of two peers; the first has a list of bytes. -/
def sharedManager : CEntities where
  name := [112]
  name_le := CEntities.p_le
  cls := .bare
  objects := [
    { ref := 0, netID := 0, controller := netControllerLocal, peer := some 1,
      lists := [{ size := 1, initial := Vector.replicate 1 0 }] },
    { ref := 1, netID := 1, controller := netControllerLocal, peer := some 2 }]

def sharedServer : NetSystem where
  server := true
  callbacks := serverCallbacks
  instances := [{ name := [119], managers := [sharedManager] }]

/-- An element for the list of the first object. -/
def strayAdd : MapAdd := ⟨⟨[119], [112], 0⟩, 5, [7], 0⟩

theorem receive_foreignLists_iff_owner : sharedServer.callbacks = serverCallbacks ∧
    listMsgOf Protobuf.wire ((ListMsg.add strayAdd).packet Protobuf.wire) = some (.add strayAdd) ∧
    2 ≤ ((ListMsg.add strayAdd).packet Protobuf.wire).length ∧
    ((sharedServer.receive Protobuf.wire Mem.zero 1
        ((ListMsg.add strayAdd).packet Protobuf.wire)).2.foreignLists 1 = sharedServer.foreignLists 1 ↔
      (sharedServer.running = true → sharedServer.Permits 1 (.add strayAdd))) := by
  have hmsg := listMsgOf_packet Protobuf.wire_roundTrips (.add strayAdd)
  have hlen := two_le_length_packet Protobuf.wire (.add strayAdd)
  exact ⟨rfl, hmsg, hlen, receive_foreignLists_iff rfl hmsg hlen Mem.zero 1⟩

/-- The second peer adds an element to the list of the first. -/
theorem not_foreignLists_strayAdd : ¬ ∀ (s : NetSystem), s.callbacks = serverCallbacks →
    ∀ (pb : Protobuf) (packet : Bytes) (msg : ListMsg), listMsgOf pb packet = some msg →
      2 ≤ packet.length → ∀ (past : Mem) (p : Peer),
        (s.receive pb past p packet).2.foreignLists p = s.foreignLists p := by
  intro h
  have hmsg := listMsgOf_packet Protobuf.wire_roundTrips (.add strayAdd)
  have hlen := two_le_length_packet Protobuf.wire (.add strayAdd)
  have hkeep := h sharedServer rfl Protobuf.wire _ _ hmsg hlen Mem.zero 2
  rw [receive_server rfl rfl hlen, hmsg] at hkeep
  have hpermits := (foreignLists_onRemote (.add strayAdd)).mp hkeep _ rfl _ rfl _ rfl
  rcases hpermits with howner | hignores
  · exact absurd howner (by decide)
  · have hsame := (hignores _ rfl).1
    exact absurd hsame (by decide)

end Nettik
