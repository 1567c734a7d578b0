import Nettik.World.Failures

/-!
# Payloads that do not parse

`CProtoPacket::Read` does not look at what `ParseFromArray` returns.

* `parsedMsgOf`: the list message of a packet, and whether it parsed; `receive_list` the handler it
  reaches;
* `Untouched`: no list changes, nothing is queued and no callback is called;
* **`receive_malformed_iff`**: a payload that does not parse is not acted on exactly when it finds no
  list, or asks it for something that is refused before the first callback.
-/

namespace Nettik

open ByteMem Loops

/-! ## Messages and handlers -/

/-- The list message a packet holds for the handler of its code, and whether the parse succeeded. -/
def parsedMsgOf (pb : Protobuf) (packet : Bytes) : Option (Bool × ListMsg) :=
  if codeOf packet = internalEvtListAdd then
    some ((pb.parseAdd (packet.drop 2)).1, .add (pb.parseAdd (packet.drop 2)).2)
  else if codeOf packet = internalEvtListData then
    some ((pb.parseUpdate (packet.drop 2)).1, .update (pb.parseUpdate (packet.drop 2)).2)
  else if codeOf packet = internalEvtListRemove then
    some ((pb.parseRemove (packet.drop 2)).1, .remove (pb.parseRemove (packet.drop 2)).2)
  else none

theorem listMsgOf_eq (pb : Protobuf) (packet : Bytes) :
    listMsgOf pb packet = (parsedMsgOf pb packet).map Prod.snd := by
  unfold listMsgOf parsedMsgOf
  split_ifs <;> rfl

namespace EventSystem

variable {s : EventSystem} {pb : Protobuf} {packet : Bytes} {msg : ListMsg}

/-- **The handler a list message reaches**, on a server and on a client. -/
theorem receive_list (hcb : s.net.callbacks = serverCallbacks ∨ s.net.callbacks = clientCallbacks)
    (hrun : s.net.running = true) (hlen : 2 ≤ packet.length) (hmsg : listMsgOf pb packet = some msg)
    (past : Mem) (peer : Peer) : s.receive pb past peer packet = (.ok (), s.onRemote msg) := by
  have hone : ∀ (code : UInt16) (h : Handler), codeOf packet = code →
      (serverCallbacks.filterMap fun c => if c.1 = code then some c.2 else none) = [h] →
      (clientCallbacks.filterMap fun c => if c.1 = code then some c.2 else none) = [h] →
      s.receive pb past peer packet =
        (s.runHandler pb (Mem.ofList packet past) packet.length peer h).andThen fun s => (.ok (), s) := by
    intro code h hcode hserver hclient
    have hhandlers : s.net.handlersOf code = [h] := by
      rw [NetSystem.handlersOf]
      rcases hcb with hcb | hcb <;> rw [hcb]
      · exact hserver
      · exact hclient
    rw [receive, processRecv, if_neg (by simp [hrun]), if_neg (by omega), read_code hlen, hcode,
      hhandlers]
    rfl
  have hbytes := protoBytes_ofList hlen past
  unfold listMsgOf at hmsg
  split_ifs at hmsg with hadd hdata hremove
  · rw [hone _ .onRemoteAdd hadd (by decide) (by decide), runHandler, hbytes, Outcome.andThen_ok,
      Option.some.inj hmsg]
  · rw [hone _ .onRemoteUpdate hdata (by decide) (by decide), runHandler, hbytes, Outcome.andThen_ok,
      Option.some.inj hmsg]
  · rw [hone _ .onRemoteRemove hremove (by decide) (by decide), runHandler, hbytes, Outcome.andThen_ok,
      Option.some.inj hmsg]

/-! ## What is not acted on -/

/-- **The law of a payload that does not parse.** The lists and what they are about to send stay as they
are, and no callback is called. -/
structure Untouched (s s' : EventSystem) : Prop where
  contents : s'.net.listContents = s.net.listContents
  uncalled : ∀ target listID, (s'.bindings target listID).calls = (s.bindings target listID).calls

end EventSystem

/-- An addition of the wrong size for a key that is there; an update of the wrong size or to a missing
key. -/
def NetVarList.Refuses (msg : ListMsg) (l : NetVarList) : Prop :=
  match msg with
  | .add m => m.value.length ≠ l.size ∧ m.key ∈ l.data
  | .update m => m.key ∉ l.data ∨ m.value.length ≠ l.size
  | .remove _ => False

namespace CNetVarList

variable {ctx : ListContext} {l : CNetVarList} {msg : ListMsg}

theorem onRemote_refused (h : l.base.Refuses msg) (ctx : ListContext) : l.onRemote ctx msg = l := by
  cases msg with
  | add m =>
    have hsame : l.onRemote ctx (.add m) = { l with base := l.base.subscript m.key } := if_neg h.1
    rw [hsame, NetVarList.subscript_of_mem h.2]
  | update m => exact if_neg (not_and_or.mpr h)
  | remove m => exact absurd h id

/-- **What is not refused changes an element or calls a callback.** -/
theorem onRemote_noticed (h : ¬ l.base.Refuses msg) (ctx : ListContext) :
    (l.onRemote ctx msg).base.contents ≠ l.base.contents ∨
      l.bindings.calls < (l.onRemote ctx msg).bindings.calls := by
  cases msg with
  | add m =>
    by_cases hsize : m.value.length = l.base.size
    · refine Or.inr ?_
      show _ < (l.onRemoteAdd ctx m).bindings.calls
      rw [onRemoteAdd, if_pos hsize]
      exact lt_calls_dispatch ctx .add m.key
        ⟨(l.base.subscript m.key).overwrite m.key m.value, l.bindings⟩
    · -- the key is built before the sizes are compared
      exact Or.inl fun hsame => h ⟨hsize, (contents_missized_iff hsize ctx).mp hsame⟩
  | update m =>
    have happly : m.key ∈ l.base.data ∧ m.value.length = l.base.size := by
      simpa [NetVarList.Refuses] using h
    refine Or.inr ?_
    show _ < (l.onRemoteUpdate ctx m).bindings.calls
    rw [onRemoteUpdate, if_pos happly]
    exact lt_calls_dispatch ctx .update m.key ⟨l.base.overwrite m.key m.value, l.bindings⟩
  | remove m => exact Or.inr (lt_calls_dispatch ctx .remove m.key l)

end CNetVarList

namespace EventSystem

variable {s : EventSystem} {pb : Protobuf} {packet : Bytes} {msg : ListMsg}

theorem untouched_refl (s : EventSystem) : s.Untouched s := ⟨rfl, fun _ _ => rfl⟩

/-- **Which messages are not acted on.** -/
theorem untouched_onRemote_iff (s : EventSystem) (msg : ListMsg) :
    s.Untouched (s.onRemote msg) ↔ ∀ ctx l, s.fetch msg = some (ctx, l) → l.base.Refuses msg := by
  cases hf : s.fetch msg with
  | none =>
    rw [onRemote_none hf]
    exact iff_of_true s.untouched_refl (by simp)
  | some r =>
    obtain ⟨ctx, l⟩ := r
    obtain ⟨-, hb⟩ := fetch_eq_some.mp hf
    have hbindings : (s.onRemote msg).bindings msg.target msg.listID = (l.onRemote ctx msg).bindings := by
      rw [onRemote_some hf]
      exact if_pos ⟨rfl, rfl⟩
    refine Iff.trans ?_ (forall_found rfl).symm
    constructor
    · intro h
      by_contra hnot
      rcases CNetVarList.onRemote_noticed hnot ctx with hcontents | hcalls
      · exact hcontents ((listContents_onRemote hf).mp h.contents)
      · have hsame := h.uncalled msg.target msg.listID
        rw [hbindings, ← hb] at hsame
        exact hcalls.ne' hsame
    · intro h
      have hsame := CNetVarList.onRemote_refused h ctx
      refine ⟨(listContents_onRemote hf).mpr (by rw [hsame]), fun target listID => ?_⟩
      rw [onRemote_some hf, hsame]
      dsimp only
      split_ifs with haddress
      · rw [hb, haddress.1, haddress.2]
      · rfl

/-- **Which payloads that do not parse are not acted on**: those that find no list, and those that the
list they find refuses before it calls a callback. -/
theorem receive_malformed_iff
    (hcb : s.net.callbacks = serverCallbacks ∨ s.net.callbacks = clientCallbacks)
    (hlen : 2 ≤ packet.length) (hmsg : parsedMsgOf pb packet = some (false, msg)) (past : Mem)
    (peer : Peer) :
    s.Untouched (s.receive pb past peer packet).2 ↔
      (s.net.running = true → ∀ ctx l, s.fetch msg = some (ctx, l) → l.base.Refuses msg) := by
  by_cases hrun : s.net.running = true
  · have hlist : listMsgOf pb packet = some msg := by rw [listMsgOf_eq, hmsg]; rfl
    rw [imp_iff_right hrun, receive_list hcb hrun hlen hlist, untouched_onRemote_iff]
  · have hsame : (s.receive pb past peer packet).2 = s := by
      simp [receive, processRecv, hrun]
    rw [hsame]
    exact iff_of_true s.untouched_refl fun h => absurd h hrun

end EventSystem

/-! ### Broken packets -/

/-- **A packet that breaks after its fields still holds its message.** -/
theorem parsedMsgOf_broken (msg : ListMsg) {r : Bytes} (hr : r ≠ []) (hread : Wire.Field.read r = none) :
    parsedMsgOf Protobuf.wire (msg.packet Protobuf.wire ++ r) = some (false, msg) := by
  cases msg with
  | add m =>
    rw [ListMsg.packet, List.append_assoc, parsedMsgOf, codeOf_append, drop_code, if_pos rfl]
    simp [Protobuf.wire, Wire.decode_broken _ hr hread, MapAdd.ofFields_fields]
  | update m =>
    rw [ListMsg.packet, List.append_assoc, parsedMsgOf, codeOf_append, drop_code, if_neg (by decide),
      if_pos rfl]
    simp [Protobuf.wire, Wire.decode_broken _ hr hread, MapAdd.ofFields_fields]
  | remove m =>
    rw [ListMsg.packet, List.append_assoc, parsedMsgOf, codeOf_append, drop_code, if_neg (by decide),
      if_neg (by decide), if_pos rfl]
    simp [Protobuf.wire, Wire.decode_broken _ hr hread, MapRemove.ofFields_fields]

namespace EventSystem

/-- The shared server, whose application binds no callbacks. -/
def sharedEvents : EventSystem where
  net := sharedServer
  bindings := fun _ _ => {}

def strayRemove : ListMsg := .remove ⟨⟨[119], [112], 0⟩, 5, 0⟩

/-- The removal, cut off in the middle of a field that follows it. -/
def brokenPacket : Bytes := strayRemove.packet Protobuf.wire ++ [0x80]

theorem parsedMsgOf_brokenPacket : parsedMsgOf Protobuf.wire brokenPacket = some (false, strayRemove) :=
  parsedMsgOf_broken strayRemove (by simp) (by decide)

theorem two_le_length_brokenPacket : 2 ≤ brokenPacket.length := by
  rw [brokenPacket, List.length_append]
  exact (two_le_length_packet Protobuf.wire strayRemove).trans (Nat.le_add_right _ _)

theorem receive_malformed_iff_broken :
    (sharedEvents.net.callbacks = serverCallbacks ∨ sharedEvents.net.callbacks = clientCallbacks) ∧
    2 ≤ brokenPacket.length ∧ parsedMsgOf Protobuf.wire brokenPacket = some (false, strayRemove) ∧
    (sharedEvents.Untouched (sharedEvents.receive Protobuf.wire Mem.zero 1 brokenPacket).2 ↔
      (sharedEvents.net.running = true → ∀ ctx l, sharedEvents.fetch strayRemove = some (ctx, l) →
        l.base.Refuses strayRemove)) :=
  ⟨Or.inl rfl, two_le_length_brokenPacket, parsedMsgOf_brokenPacket,
    receive_malformed_iff (Or.inl rfl) two_le_length_brokenPacket parsedMsgOf_brokenPacket Mem.zero 1⟩

/-- The broken removal is passed on to the callbacks of the list. -/
theorem not_untouched_broken : ¬ ∀ (s : EventSystem), s.net.callbacks = serverCallbacks →
    ∀ (pb : Protobuf) (packet : Bytes) (msg : ListMsg), 2 ≤ packet.length →
      parsedMsgOf pb packet = some (false, msg) → ∀ (past : Mem) (peer : Peer),
        s.Untouched (s.receive pb past peer packet).2 := by
  intro h
  have huntouched := h sharedEvents rfl Protobuf.wire brokenPacket strayRemove two_le_length_brokenPacket
    parsedMsgOf_brokenPacket Mem.zero 1
  have hlist : listMsgOf Protobuf.wire brokenPacket = some strayRemove := by
    rw [listMsgOf_eq, parsedMsgOf_brokenPacket]
    rfl
  rw [receive_list (Or.inl rfl) rfl two_le_length_brokenPacket hlist] at huntouched
  exact ((untouched_onRemote_iff sharedEvents strayRemove).mp huntouched _ _ rfl).elim

end EventSystem

end Nettik
