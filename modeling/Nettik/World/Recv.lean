import Nettik.Snapshot.Bounds
import Nettik.World.Tick

/-!
# Packets of any peer

What `ProcessRecv` does on a server with bytes that no sender need have written.

* `receive_server`: the handler each message code reaches;
* `harmless`, **`receive_ok_iff`**: the packets a server gets over without an exception and without
  looking behind them; `receive_dropped` what it does with those that address nothing;
* **`partitions_inside`**: the snapshot handlers of both sides read no partition beyond the packet.
-/

namespace Nettik

open ByteMem Loops SnapshotEntList

/-! ## List messages -/

/-- The list message a packet holds for the handler of its code, whether or not the parse
succeeded. -/
def listMsgOf (pb : Protobuf) (packet : Bytes) : Option ListMsg :=
  if codeOf packet = internalEvtListAdd then some (.add (pb.parseAdd (packet.drop 2)).2)
  else if codeOf packet = internalEvtListData then some (.update (pb.parseUpdate (packet.drop 2)).2)
  else if codeOf packet = internalEvtListRemove then some (.remove (pb.parseRemove (packet.drop 2)).2)
  else none

theorem two_le_length_packet (pb : Protobuf) (msg : ListMsg) : 2 ≤ (msg.packet pb).length := by
  cases msg <;> rw [ListMsg.packet, List.length_append, length_toLE] <;> omega

theorem codeOf_append (code : UInt16) (body : Bytes) : codeOf (toLE 2 code.toNat ++ body) = code := by
  rw [codeOf, List.take_left' (length_toLE 2 _), u16Of_toLE]

theorem drop_code (code : UInt16) (body : Bytes) : (toLE 2 code.toNat ++ body).drop 2 = body :=
  List.drop_left' (length_toLE 2 _)

/-- **A message that was sent is the message that arrives.** -/
theorem listMsgOf_packet {pb : Protobuf} (h : pb.RoundTrips) (msg : ListMsg) :
    listMsgOf pb (msg.packet pb) = some msg := by
  cases msg with
  | add m =>
    rw [ListMsg.packet, listMsgOf, codeOf_append, drop_code, if_pos rfl, h.add]
  | update m =>
    rw [ListMsg.packet, listMsgOf, codeOf_append, drop_code, if_neg (by decide), if_pos rfl, h.update]
  | remove m =>
    rw [ListMsg.packet, listMsgOf, codeOf_append, drop_code, if_neg (by decide), if_neg (by decide),
      if_pos rfl, h.remove]

def ListMsg.target : ListMsg → AssociatedObject
  | .add m | .update m => m.target
  | .remove m => m.target

def ListMsg.listID : ListMsg → UInt32
  | .add m | .update m => m.listID
  | .remove m => m.listID

/-- What a list does with a message. -/
def NetVarList.onRemote (ctx : ListContext) : ListMsg → NetVarList → NetVarList
  | .add m => NetVarList.onRemoteAdd ctx m
  | .update m => NetVarList.onRemoteUpdate ctx m
  | .remove m => NetVarList.onRemoteRemove ctx m

namespace NetSystem

/-- What the three list handlers do. -/
def onRemote (msg : ListMsg) (s : NetSystem) : NetSystem :=
  s.modifyList msg.target msg.listID fun ctx l => l.onRemote ctx msg

/-- The list a message names. -/
def findList (target : AssociatedObject) (listID : UInt32) (s : NetSystem) : Option NetVarList :=
  (((s.getInstance target.instanceName).bind (·.getManager target.managerName)).bind
    (·.getByNetID target.networkCode)).bind (·.lists[listID.toNat]?)

theorem modifyList_of_none {target : AssociatedObject} {listID : UInt32} {s : NetSystem}
    {f : ListContext → NetVarList → NetVarList} (h : s.findList target listID = none) :
    s.modifyList target listID f = s := by
  simp only [findList, Option.bind_eq_none_iff, Option.bind_eq_some_iff] at h
  have hlists : ∀ (o : NetObject) (g : NetVarList → NetVarList), o.lists[listID.toNat]? = none →
      o.lists.modify listID.toNat g = o.lists :=
    fun o g ho => List.modify_eq_self (List.getElem?_eq_none_iff.mp ho)
  unfold modifyList modifyInstance
  congr 1
  refine modifyFirst_eq_self fun i hi => ?_
  unfold VirtualInstance.modifyManager
  congr 1
  refine modifyFirst_eq_self fun m hm => ?_
  unfold CEntities.modifyObject
  congr 1
  refine modifyFirst_eq_self fun o ho => ?_
  exact congrArg (fun l => { o with lists := l }) (hlists o _ (h o ⟨m, ⟨i, hi, hm⟩, ho⟩))

end NetSystem

/-! ## The handler of a packet -/

variable {s : NetSystem} {pb : Protobuf} {packet : Bytes} {past : Mem} {peer : Peer}

theorem read_code (hlen : 2 ≤ packet.length) (past : Mem) :
    u16Of ((Mem.ofList packet past).read 2) = codeOf packet := by
  rw [codeOf, ← List.take_append_drop 2 packet]
  rw [Mem.read_ofList (by simpa using hlen), List.take_left' (by simpa using hlen)]

theorem protoBytes_ofList (hlen : 2 ≤ packet.length) (past : Mem) :
    NetSystem.protoBytes (Mem.ofList packet past) packet.length = packet.drop 2 := by
  have hshift : (Mem.ofList packet past).shift 2 = Mem.ofList (packet.drop 2) past := by
    conv_lhs => rw [← List.take_append_drop 2 packet]
    exact Mem.shift_ofList (by simpa using hlen) _ _
  rw [NetSystem.protoBytes, hshift]
  simpa using Mem.read_ofList (l := packet.drop 2) (by simp) [] past

/-- **What a server does with a packet**: at most one handler is bound to its code. -/
theorem receive_server (hcb : s.callbacks = serverCallbacks) (hrun : s.running = true)
    (hlen : 2 ≤ packet.length) : s.receive pb past peer packet =
      match listMsgOf pb packet with
      | some msg => (.ok (), s.onRemote msg)
      | none =>
        if codeOf packet = objectFrameCode then
          s.handleClientEntSnapshot (Mem.ofList packet past) packet.length (some peer)
        else (.ok (), s) := by
  have hbytes := protoBytes_ofList hlen past
  have hhandlers : s.handlersOf (codeOf packet) =
      serverCallbacks.filterMap fun c => if c.1 = codeOf packet then some c.2 else none := by
    rw [NetSystem.handlersOf, hcb]
  rw [NetSystem.receive, NetSystem.processRecv, if_neg (by simp [hrun]), if_neg (by omega),
    read_code hlen, hhandlers, listMsgOf]
  by_cases hadd : codeOf packet = internalEvtListAdd
  · rw [if_pos hadd, hadd]
    simp only [← hbytes]
    rfl
  by_cases hdata : codeOf packet = internalEvtListData
  · rw [if_neg hadd, if_pos hdata, hdata]
    simp only [← hbytes]
    rfl
  by_cases hremove : codeOf packet = internalEvtListRemove
  · rw [if_neg hadd, if_neg hdata, if_pos hremove, hremove]
    simp only [← hbytes]
    rfl
  rw [if_neg hadd, if_neg hdata, if_neg hremove]
  by_cases hframe : codeOf packet = objectFrameCode
  · simp only [hframe]
    have hone : (serverCallbacks.filterMap fun c =>
        if c.1 = objectFrameCode then some c.2 else none) = [.handleClientEntSnapshot] := by decide
    rw [hone, throughout, NetSystem.runHandler]
    rcases s.handleClientEntSnapshot (Mem.ofList packet past) packet.length (some peer) with
      ⟨_ | _, _⟩ <;> rfl
  · simp [serverCallbacks, listCallbacks, Ne.symm hadd, Ne.symm hdata, Ne.symm hremove,
      Ne.symm hframe, throughout, hframe]

/-! ## Exceptions and reads -/

/-- The packets a server survives: two bytes, and for a snapshot a header; and if the sizes agree and
there are frames, a length of the frames that the guard of `readData` lets pass, and room in the packet
for what it reads of each. -/
def harmless (packet : Bytes) (past : Mem) : Prop :=
  2 ≤ packet.length ∧ (codeOf packet = objectFrameCode →
    ∃ header, SnapshotHeader.read (Mem.ofList packet past) packet.length = .ok header ∧
      (sizeTest header packet.length → header.count.toNat = 0 ∨
        readable header.maxMessageLength.toNat ∧ header.Roomy packet past))

/-- A server looks at nothing behind a packet. It looks at the code and the header once their lengths are
tested, hands the rest of a list message to the library with its length, and reads the frames of a
snapshot. -/
def NetSystem.readsInside (packet : Bytes) (past : Mem) (peer : Peer) (s : NetSystem) : Prop :=
  s.running = true → codeOf packet = objectFrameCode →
    Nettik.readsInside (actClient (some peer)) packet past s

/-- A packet that names a list or an object of the server: a list message whose list is found, or a
snapshot of consistent size with a frame whose object is found. -/
def NetSystem.addressed (pb : Protobuf) (packet : Bytes) (past : Mem) (s : NetSystem) : Prop :=
  match listMsgOf pb packet with
  | some msg => (s.findList msg.target msg.listID).isSome
  | none => codeOf packet = objectFrameCode ∧ ∃ f ∈ decoded packet past, (s.findObject f.netID).isSome

/-- Frames that leave the state alone. -/
theorem forFrames_fixed {σ : Type} {act : Frame → σ → Outcome σ} {s : σ} (max n : ℕ) (partition : Mem)
    (seen : List Frame) (h : ∀ f ∈ (forFrames (fun f seen => (.ok (), seen ++ [f])) max n partition
      seen).2, (act f s).2 = s) :
    (forFrames act max n partition s).2 = s := by
  induction n generalizing partition seen with
  | zero => rfl
  | succ n ih =>
    rw [forFrames] at h ⊢
    cases hread : ({} : SnapshotEntList).readData partition max with
    | error e => rfl
    | ok frame =>
      simp only [hread, Outcome.andThen] at h ⊢
      have hmono : ∀ (n : ℕ) (partition : Mem) (seen : List Frame), ∀ f ∈ seen,
          f ∈ (forFrames (fun f seen => (.ok (), seen ++ [f])) max n partition seen).2 :=
        fun n partition seen f hf => forFrames_inv (I := fun seen => f ∈ seen)
          (fun f' s' hs' => List.mem_append_left _ hs') max n partition hf
      have hfirst : (act frame.content s).2 = s :=
        h _ (hmono _ _ _ _ (List.mem_append_right _ List.mem_cons_self))
      cases (act frame.content s).1 with
      | error e => exact hfirst
      | ok u =>
        rw [hfirst]
        exact ih _ _ h

theorem handleSnapshot_fixed {σ : Type} {act : Frame → σ → Outcome σ} {s : σ}
    (h : ∀ f ∈ decoded packet past, (act f s).2 = s) :
    (handleSnapshot act (Mem.ofList packet past) packet.length s).2 = s := by
  rw [decoded] at h
  rw [handleSnapshot] at h ⊢
  cases hread : SnapshotHeader.read (Mem.ofList packet past) packet.length with
  | error e => rfl
  | ok header =>
    by_cases ht : sizeTest header packet.length
    · simp only [hread, if_pos ht] at h ⊢
      exact forFrames_fixed _ _ _ [] h
    · simp only [if_neg ht]

/-- **A packet that addresses nothing is dropped.** -/
theorem receive_dropped (hcb : s.callbacks = serverCallbacks) (h : ¬ s.addressed pb packet past) :
    (s.receive pb past peer packet).2 = s := by
  by_cases hrun : s.running = true
  swap
  · simp [NetSystem.receive, NetSystem.processRecv, hrun]
  by_cases hlen : 2 ≤ packet.length
  swap
  · simp [NetSystem.receive, NetSystem.processRecv, hrun, Nat.lt_of_not_le hlen]
  rw [receive_server hcb hrun hlen]
  rw [NetSystem.addressed] at h
  cases hmsg : listMsgOf pb packet with
  | some msg =>
    simp only [hmsg, Bool.not_eq_true, Option.isSome_eq_false_iff, Option.isNone_iff_eq_none] at h
    show s.onRemote msg = s
    exact NetSystem.modifyList_of_none h
  | none =>
    simp only [hmsg, not_and, not_exists] at h
    by_cases hframe : codeOf packet = objectFrameCode
    swap
    · simp only [if_neg hframe]
    simp only [if_pos hframe]
    refine handleSnapshot_fixed fun f hf => ?_
    have hnone : s.findObject f.netID = none := by simpa using h hframe f hf
    rw [NetSystem.actClient, NetSystem.readEntityUpdate, hnone]
    split_ifs <;> rfl

/-- A server without an exception on a packet that is none too short. -/
theorem receive_safe_iff (hcb : s.callbacks = serverCallbacks) (hrun : s.running = true) (pb : Protobuf)
    (past : Mem) (peer : Peer) (packet : Bytes) :
    ((s.receive pb past peer packet).1 = .ok () ∧ s.readsInside packet past peer) ↔ harmless packet past := by
  rw [harmless]
  by_cases hlen : 2 ≤ packet.length
  swap
  · simp [NetSystem.receive, NetSystem.processRecv, hrun, Nat.lt_of_not_le hlen, hlen]
  rw [receive_server hcb hrun hlen, and_iff_right hlen, NetSystem.readsInside, imp_iff_right hrun]
  by_cases hframe : codeOf packet = objectFrameCode
  · have hmsg : listMsgOf pb packet = none := by
      rw [listMsgOf, hframe, if_neg (by decide), if_neg (by decide), if_neg (by decide)]
    rw [hmsg]
    simp only [if_pos hframe]
    rw [imp_iff_right hframe, imp_iff_right hframe]
    exact handleSnapshot_safe_iff (fun f s' => rfl) packet past s
  · cases listMsgOf pb packet <;> simp [hframe]

/-- **A server survives the harmless packets**: no exception escapes, and it looks at nothing behind the
packet. What addresses nothing is dropped. -/
theorem receive_ok_iff (hcb : s.callbacks = serverCallbacks) (pb : Protobuf) (past : Mem) (peer : Peer)
    (packet : Bytes) :
    (((s.receive pb past peer packet).1 = .ok () ∧ s.readsInside packet past peer) ∧
      (¬ s.addressed pb packet past → (s.receive pb past peer packet).2 = s)) ↔
        (s.running = true → harmless packet past) := by
  rw [and_iff_left (receive_dropped hcb)]
  by_cases hrun : s.running = true
  · rw [imp_iff_right hrun]
    exact receive_safe_iff hcb hrun pb past peer packet
  · simp [NetSystem.receive, NetSystem.processRecv, NetSystem.readsInside, hrun]

/-- A server that has just been constructed, and two bytes of a snapshot. -/
def freshServer : NetSystem := { server := true, callbacks := serverCallbacks }

theorem receive_ok_iff_fresh : freshServer.callbacks = serverCallbacks ∧
    ((((freshServer.receive Protobuf.wire Mem.zero 1 [0xFD, 0xFF]).1 = .ok () ∧
        freshServer.readsInside [0xFD, 0xFF] Mem.zero 1) ∧
      (¬ freshServer.addressed Protobuf.wire [0xFD, 0xFF] Mem.zero →
        (freshServer.receive Protobuf.wire Mem.zero 1 [0xFD, 0xFF]).2 = freshServer)) ↔
      (freshServer.running = true → harmless [0xFD, 0xFF] Mem.zero)) :=
  ⟨rfl, receive_ok_iff rfl Protobuf.wire Mem.zero 1 [0xFD, 0xFF]⟩

/-- One byte is enough for an exception, and one frame of ten bytes for a look behind the packet. -/
theorem not_survives_oneByte :
    (¬ ∀ (s : NetSystem), s.callbacks = serverCallbacks →
      ∀ (pb : Protobuf) (past : Mem) (peer : Peer) (packet : Bytes),
        ((s.receive pb past peer packet).1 = .ok () ∧ s.readsInside packet past peer) ∧
          (¬ s.addressed pb packet past → (s.receive pb past peer packet).2 = s)) ∧
    (freshServer.receive Protobuf.wire Mem.zero 1 [0]).1 ≠ .ok () ∧
    ¬ freshServer.readsInside shortFramePacket Mem.zero 1 := by
  have herror : (freshServer.receive Protobuf.wire Mem.zero 1 [0]).1 ≠ .ok () := by
    simp [NetSystem.receive, NetSystem.processRecv, freshServer]
  refine ⟨fun h => herror (h freshServer rfl Protobuf.wire Mem.zero 1 [0]).1.1, herror, fun h => ?_⟩
  have hoff : 145 ∈ offsetsRead ((Mem.ofList shortFramePacket Mem.zero).shift (sizeofHeader + 0 * 10)) 10 := by
    decide
  have hread : SnapshotHeader.read (Mem.ofList shortFramePacket Mem.zero) shortFramePacket.length =
      .ok ⟨objectFrameCode, 1, 0, 10⟩ := by decide
  have hinside := h rfl (by decide) _ hread 0 (by decide) 145 hoff
  exact absurd hinside (by decide)

/-! ## Partitions -/

/-- **Every partition that `readData` returns from lies in the packet**, on servers and on clients, for
any header. -/
theorem partitions_inside (packet : Bytes) (past : Mem) (hlen : sizeofHeader ≤ packet.length) :
    ∃ header, SnapshotHeader.read (Mem.ofList packet past) packet.length = .ok header ∧
      ∀ (s : NetSystem) (peer : Option Peer) (i : ℕ),
        (i < partitionsRead (NetSystem.actClient peer) (Mem.ofList packet past) packet.length s →
          sizeofHeader + (i + 1) * header.maxMessageLength.toNat ≤ packet.length) ∧
        (i < partitionsRead NetSystem.actServer (Mem.ofList packet past) packet.length s →
          sizeofHeader + (i + 1) * header.maxMessageLength.toNat ≤ packet.length) := by
  have hread : ∃ header, SnapshotHeader.read (Mem.ofList packet past) packet.length = .ok header :=
    ⟨_, by rw [SnapshotHeader.read, if_neg (by omega)]⟩
  obtain ⟨header, hread⟩ := hread
  refine ⟨header, hread, fun s peer i => ⟨fun hi => ?_, fun hi => ?_⟩⟩
  · exact partitionsRead_inside _ hread hlen s hi
  · exact partitionsRead_inside _ hread hlen s hi

/-- A packet of one frame. -/
theorem partitions_inside_short :
    ∃ header, SnapshotHeader.read (Mem.ofList shortFramePacket Mem.zero) shortFramePacket.length =
        .ok header ∧
      ∀ (s : NetSystem) (peer : Option Peer) (i : ℕ),
        (i < partitionsRead (NetSystem.actClient peer) (Mem.ofList shortFramePacket Mem.zero)
            shortFramePacket.length s →
          sizeofHeader + (i + 1) * header.maxMessageLength.toNat ≤ shortFramePacket.length) ∧
        (i < partitionsRead NetSystem.actServer (Mem.ofList shortFramePacket Mem.zero)
            shortFramePacket.length s →
          sizeofHeader + (i + 1) * header.maxMessageLength.toNat ≤ shortFramePacket.length) :=
  partitions_inside shortFramePacket Mem.zero (by decide)

end Nettik
