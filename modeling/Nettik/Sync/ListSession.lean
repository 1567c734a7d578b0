import Nettik.Sync.Lists
import Nettik.Sync.Session
import Nettik.World.Deltas

/-!
# Lists in whole sessions

The controllers of a session also keep lists, and exchange the packets their lists send.

* `ListSession`, `step`: a session, calls on lists, `DoListUpdate`, and list packets that are received;
* `named`, **`named_listUpdate`**: of the packets a walk over the lists sends to a peer, those that name a
  list are those of that list;
* `receives_packet`: a list packet reaches its handler, on either side;
* `Session.Leaves`, **`leaves_step`**: nothing that a session does besides is about its lists.
-/

namespace Nettik

open ByteMem Loops Links

/-! ## Sessions with lists -/

/-- A call on a list, whatever the size of its elements. -/
inductive ListCall where
  | create (key : UInt32) (data : Bytes)
  | set (key : UInt32) (data : Bytes)
  | remove (key : UInt32)
  | removeAll (order : List UInt32)
  | clear (order : List UInt32)
  deriving DecidableEq, Repr

/-- The element is as many bytes as the list has for it. -/
def ListCall.op (size : ℕ) : ListCall → ListOp size
  | .create key data => .create key (Blob.ofMem size (Mem.ofList data Mem.zero))
  | .set key data => .set key (Blob.ofMem size (Mem.ofList data Mem.zero))
  | .remove key => .remove key
  | .removeAll order => .removeAll order
  | .clear order => .clear order

def NetSystem.callList (object : AssociatedObject) (listID : UInt32) (c : ListCall) (s : NetSystem) :
    NetSystem :=
  s.modifyList object listID fun ctx l => l.call ctx (c.op l.size)

/-- The list packets on their way to and from the client behind each link have queues of their own, which
allows more interleavings than a channel that they share with snapshots. -/
structure ListSession where
  session : Session
  down : ℕ → List Bytes := fun _ => []
  up : ℕ → List Bytes := fun _ => []

/-- `none` is the server, `some k` the client behind the `k`-th link. -/
inductive ListSessionAct where
  | session (a : SessionAct)
  | call (who : Option ℕ) (object : AssociatedObject) (listID : UInt32) (c : ListCall)
  | listUpdate (who : Option ℕ)
  | toServer (k : ℕ)
  | toClient (k : ℕ)
  deriving DecidableEq

/-- What a peer gets of what is sent. -/
def gets (p : Peer) (sends : List Send) : List Bytes := (sends.filter (Send.reaches p)).map Send.packet

namespace Session

/-- A controller does something on its own. -/
def act (who : Option ℕ) (f : NetSystem → NetSystem) (s : Session) : Session :=
  match who with
  | none => { s with server := f s.server }
  | some k => { s with links := s.links.modify k fun l => { l with client := l.client.update f } }

def controller (who : Option ℕ) (s : Session) : Option NetSystem :=
  match who with
  | none => some s.server
  | some k => s.links[k]?.map fun l => l.client.state

/-- A controller processes a packet. -/
def receives (pb : Protobuf) (past : Mem) (who : Option ℕ) (peer : Peer) (packet : Bytes) (s : Session) :
    Session :=
  { s.act who fun c => (c.receive pb past peer packet).2 with
    failed := s.failed || (s.controller who).any fun c => !(c.receive pb past peer packet).1.isOk }

end Session

namespace ListSession

variable (pb : Protobuf) (past : Mem) (host : Peer)

def listUpdate (who : Option ℕ) (s : ListSession) : ListSession :=
  let sends := ((s.session.controller who).map fun c => (c.listUpdate pb).2).getD []
  let session := s.session.act who fun c => (c.listUpdate pb).1
  match who with
  | none =>
    { s with
      session := session
      down := fun k => s.down k ++ (s.session.links[k]?.map fun l => gets l.peer sends).getD [] }
  | some k => { s with session := session, up := Function.update s.up k (s.up k ++ gets host sends) }

def toServer (k : ℕ) (s : ListSession) : ListSession :=
  match s.session.links[k]?, s.up k with
  | some l, packet :: rest =>
    { s with
      session := s.session.receives pb past none l.peer packet
      up := Function.update s.up k rest }
  | _, _ => s

def toClient (k : ℕ) (s : ListSession) : ListSession :=
  match s.down k with
  | [] => s
  | packet :: rest =>
    { s with
      session := s.session.receives pb past (some k) host packet
      down := Function.update s.down k rest }

def step (s : ListSession) : ListSessionAct → ListSession
  | .session a => { s with session := s.session.step pb past host a }
  | .call who object listID c =>
    { s with session := s.session.act who (NetSystem.callList object listID c) }
  | .listUpdate who => s.listUpdate pb host who
  | .toServer k => s.toServer pb past k
  | .toClient k => s.toClient pb past host k

end ListSession

/-! ## What is sent about a list -/

/-- The messages about one list that packets hold. -/
def named (pb : Protobuf) (object : AssociatedObject) (listID : UInt32) (packets : List Bytes) :
    List ListMsg :=
  (packets.filterMap (listMsgOf pb)).filter fun msg => msg.target = object ∧ msg.listID = listID

section

variable {pb : Protobuf} {object : AssociatedObject} {listID : UInt32}

@[simp] theorem named_nil : named pb object listID [] = [] := rfl

@[simp] theorem named_append (packets packets' : List Bytes) :
    named pb object listID (packets ++ packets') =
      named pb object listID packets ++ named pb object listID packets' := by
  simp only [named, List.filterMap_append, List.filter_append]

theorem named_cons (hpb : pb.RoundTrips) (msg : ListMsg) (packets : List Bytes) :
    named pb object listID (msg.packet pb :: packets) =
      if msg.target = object ∧ msg.listID = listID then msg :: named pb object listID packets
      else named pb object listID packets := by
  rw [named, List.filterMap_cons_some (listMsgOf_packet hpb msg), List.filter_cons]
  simp only [decide_eq_true_eq]
  rfl

theorem named_packets (hpb : pb.RoundTrips) (ms : List ListMsg) :
    named pb object listID (ms.map (ListMsg.packet pb)) =
      ms.filter fun msg => msg.target = object ∧ msg.listID = listID := by
  rw [named, List.filterMap_map]
  have hsome : listMsgOf pb ∘ ListMsg.packet pb = some := funext fun msg => listMsgOf_packet hpb msg
  rw [hsome, List.filterMap_some]

/-- A controller sends each message to its peer. -/
theorem gets_sends {s : NetSystem} (hrun : s.running = true) (p : Peer) (x : Shelf) :
    gets p (x.sends pb s) = (sentToPeer p (x.delta s.getFirstPeer)).map (ListMsg.packet pb) := by
  have hsend : ∀ d : Peer × ListMsg, s.send (d.2.packet pb) (some d.1) true 1 =
      [⟨1, some d.1, true, d.2.packet pb⟩] := fun d => by rw [NetSystem.send, if_pos hrun]
  rw [Shelf.sends, List.flatMap_congr fun d _ => hsend d, ← List.map_eq_flatMap, gets, sentToPeer,
    List.filter_map, List.map_map, List.map_map]
  rfl

theorem gets_flatMap {β : Type} (p : Peer) (f : β → List Send) (l : List β) :
    gets p (l.flatMap f) = l.flatMap fun b => gets p (f b) := by
  rw [gets, List.filter_flatMap, List.map_flatMap]
  rfl

theorem sentToPeer_flatMap {β : Type} (p : Peer) (f : β → List (Peer × ListMsg)) (l : List β) :
    sentToPeer p (l.flatMap f) = l.flatMap fun b => sentToPeer p (f b) := by
  rw [sentToPeer, List.filter_flatMap, List.map_flatMap]
  rfl

/-- The messages a list sends are those of its queue. -/
theorem mem_sentToPeer {l : NetVarList} {players : List Peer} {firstPeer : Option Peer} {p : Peer}
    {msg : ListMsg} (h : msg ∈ sentToPeer p (l.updateListDelta players firstPeer).2) :
    ∃ q ∈ l.updateQueue, q.msg = msg := by
  rw [sentToPeer_updateListDelta] at h
  obtain ⟨q, hq, hmsg⟩ := List.mem_flatMap.mp h
  obtain ⟨x, hx, rfl⟩ := List.mem_map.mp hmsg
  rw [List.mem_filter, QueuedPacket.dispatch, List.mem_map] at hx
  obtain ⟨⟨p', -, rfl⟩, -⟩ := hx
  exact ⟨q, hq, rfl⟩

/-- What a shelf sends a peer from the list at a position. -/
def Shelf.deltaFor (listID : UInt32) (firstPeer : Option Peer) (p : Peer) (x : Shelf) : List ListMsg :=
  (x.lists[listID.toNat]?.map fun l => sentToPeer p (l.updateListDelta x.players firstPeer).2).getD []

/-- What a shelf has to say about a list. -/
theorem filter_delta {x : Shelf}
    (haddressed : ∀ n l, x.lists[n]? = some l → NetVarList.Addressed x.object n l)
    (firstPeer : Option Peer) (p : Peer) :
    (sentToPeer p (x.delta firstPeer)).filter (fun msg => msg.target = object ∧ msg.listID = listID) =
      if x.object = object then x.deltaFor listID firstPeer p else [] := by
  rw [Shelf.delta, sentToPeer_flatMap, List.filter_flatMap]
  split_ifs with hobject
  · subst hobject
    have hkept : ∀ n l, x.lists[n]? = some l →
        (sentToPeer p (l.updateListDelta x.players firstPeer).2).filter
          (fun msg => msg.target = x.object ∧ msg.listID = listID) =
        if n = listID.toNat then sentToPeer p (l.updateListDelta x.players firstPeer).2 else [] := by
      intro n l hl
      split_ifs with hn
      · refine List.filter_eq_self.mpr fun msg hmsg => ?_
        obtain ⟨q, hq, rfl⟩ := mem_sentToPeer hmsg
        obtain ⟨htarget, hid⟩ := haddressed n l hl q hq
        exact decide_eq_true ⟨htarget, UInt32.toNat_inj.mp (hid.trans hn)⟩
      · refine List.filter_eq_nil_iff.mpr fun msg hmsg => ?_
        obtain ⟨q, hq, rfl⟩ := mem_sentToPeer hmsg
        obtain ⟨-, hid⟩ := haddressed n l hl q hq
        simp only [decide_eq_true_eq, not_and]
        exact fun _ e => hn (hid.symm.trans (congrArg UInt32.toNat e))
    rw [flatMap_of_getElem? fun n l hl hn => by rw [hkept n l hl, if_neg hn], Shelf.deltaFor]
    cases hl : x.lists[listID.toNat]? with
    | none => rfl
    | some l => exact (hkept _ l hl).trans (if_pos rfl)
  · refine List.flatMap_eq_nil_iff.mpr fun l hl => List.filter_eq_nil_iff.mpr fun msg hmsg => ?_
    obtain ⟨n, hn⟩ := List.getElem?_of_mem hl
    obtain ⟨q, hq, rfl⟩ := mem_sentToPeer hmsg
    simp only [decide_eq_true_eq, not_and]
    exact fun e => absurd ((haddressed n l hn q hq).1.symm.trans e) hobject

variable {s : NetSystem} {ctx : ListContext} {l : NetVarList}

/-- What a walk sends to a peer. -/
theorem gets_listUpdate (hrun : s.running = true) (pb : Protobuf) (p : Peer) : gets p (s.listUpdate pb).2 =
    (s.shelves.flatMap fun x => sentToPeer p (x.delta s.getFirstPeer)).map (ListMsg.packet pb) := by
  rw [NetSystem.listUpdate_snd, gets_flatMap, List.map_flatMap]
  exact List.flatMap_congr fun x _ => gets_sends hrun p x

/-- What all shelves have to say about a list. -/
theorem named_gets (hpb : pb.RoundTrips) (hrun : s.running = true) (h : s.Shelved) (p : Peer) :
    named pb object listID (gets p (s.listUpdate pb).2) = s.shelves.flatMap fun x =>
      if x.object = object then x.deltaFor listID s.getFirstPeer p else [] := by
  rw [gets_listUpdate hrun, named_packets hpb, List.filter_flatMap]
  exact List.flatMap_congr fun x hx => filter_delta (h.addressed x hx) _ p

/-- **Of the packets a walk sends to a peer, those that name a list are those of that list.** -/
theorem named_listUpdate (hpb : pb.RoundTrips) (hrun : s.running = true) (h : s.Shelved)
    (hkeeps : s.Keeps ctx l) (p : Peer) : named pb ctx.object ctx.listID (gets p (s.listUpdate pb).2) =
      sentToPeer p (l.updateListDelta ctx.players s.getFirstPeer).2 := by
  obtain ⟨x, hx, hctx, hl⟩ := hkeeps
  have hobject : x.object = ctx.object := congrArg ListContext.object hctx
  have hplayers : x.players = ctx.players := congrArg ListContext.players hctx
  rw [named_gets hpb hrun h, flatMap_of_find? h.keyed.nodup_shelves fun x _ hne => if_neg hne,
    ← hobject, find?_of_key h.keyed.nodup_shelves hx, Option.map_some, Option.getD_some, if_pos rfl,
    Shelf.deltaFor, hl, hplayers]
  rfl

/-- A controller that is silent about a list sends nothing about it. -/
theorem named_silent (hpb : pb.RoundTrips) (hrun : s.running = true) (h : s.Shelved)
    (hs : s.Silent object listID) (p : Peer) :
    named pb object listID (gets p (s.listUpdate pb).2) = [] := by
  rw [named_gets hpb hrun h]
  refine List.flatMap_eq_nil_iff.mpr fun x hx => ?_
  split_ifs with hobject
  · rw [Shelf.deltaFor]
    cases hl : x.lists[listID.toNat]? with
    | none => rfl
    | some l =>
      rw [Option.map_some, Option.getD_some, sentToPeer_updateListDelta, (hs x hx hobject).2 l hl]
      rfl
  · rfl

end

/-! ## The controllers of a session -/

/-- **A list packet reaches its handler**, on the server and on a client. -/
theorem NetSystem.receive_packet {pb : Protobuf} (hpb : pb.RoundTrips) {c : NetSystem}
    (hrun : c.running = true) (hcb : c.callbacks = serverCallbacks ∨ c.callbacks = clientCallbacks)
    (past : Mem) (peer : Peer) (msg : ListMsg) :
    c.receive pb past peer (msg.packet pb) = (.ok (), c.onRemote msg) := by
  have hlen := two_le_length_packet pb msg
  have hone : ∀ (code : UInt16) (h : Handler), codeOf (msg.packet pb) = code →
      (serverCallbacks.filterMap fun c => if c.1 = code then some c.2 else none) = [h] →
      (clientCallbacks.filterMap fun c => if c.1 = code then some c.2 else none) = [h] →
      c.receive pb past peer (msg.packet pb) =
        (c.runHandler pb (Mem.ofList (msg.packet pb) past) (msg.packet pb).length peer h).andThen
          fun c => (.ok (), c) := by
    intro code h hcode hserver hclient
    have hhandlers : c.handlersOf code = [h] := by
      rw [NetSystem.handlersOf]
      rcases hcb with hcb | hcb <;> rw [hcb]
      · exact hserver
      · exact hclient
    rw [receive, processRecv, if_neg (by simp [hrun]), if_neg (by omega), read_code hlen, hcode, hhandlers]
    rfl
  have hbytes : NetSystem.protoBytes (Mem.ofList (msg.packet pb) past) (msg.packet pb).length =
      (msg.packet pb).drop 2 := protoBytes_ofList hlen past
  cases msg with
  | add m =>
    rw [hone _ .onRemoteAdd (codeOf_append _ _) (by decide) (by decide), runHandler, hbytes,
      ListMsg.packet, drop_code, hpb.add]
    rfl
  | update m =>
    rw [hone _ .onRemoteUpdate (codeOf_append _ _) (by decide) (by decide), runHandler, hbytes,
      ListMsg.packet, drop_code, hpb.update]
    rfl
  | remove m =>
    rw [hone _ .onRemoteRemove (codeOf_append _ _) (by decide) (by decide), runHandler, hbytes,
      ListMsg.packet, drop_code, hpb.remove]
    rfl

namespace Session

variable {pb : Protobuf} {past : Mem} {host : Peer} {s : Session} {who who' : Option ℕ} {c : NetSystem}
  {f : NetSystem → NetSystem}

theorem controller_act_self (who : Option ℕ) (f : NetSystem → NetSystem) (s : Session) :
    (s.act who f).controller who = (s.controller who).map f := by
  cases who with
  | none => rfl
  | some k =>
    show ((s.links.modify k _)[k]?).map _ = _
    rw [List.getElem?_modify_eq, Option.map_eq_map, Option.map_map, controller, Option.map_map]
    rfl

theorem controller_act_of_ne (h : who ≠ who') (f : NetSystem → NetSystem) (s : Session) :
    (s.act who f).controller who' = s.controller who' := by
  cases who with
  | none => cases who' with
    | none => exact absurd rfl h
    | some j => rfl
  | some k => cases who' with
    | none => rfl
    | some j =>
      show ((s.links.modify k _)[j]?).map _ = _
      rw [List.getElem?_modify_ne _ _ fun e => h (congrArg some e)]
      rfl

/-- What matters is what becomes of the controller. -/
theorem act_congr {f g : NetSystem → NetSystem} (h : ∀ c, s.controller who = some c → f c = g c) :
    s.act who f = s.act who g := by
  cases who with
  | none => exact congrArg (fun c => { s with server := c }) (h s.server rfl)
  | some k =>
    refine congrArg (fun links => { s with links := links }) ?_
    refine List.ext_getElem? fun n => ?_
    rw [List.getElem?_modify, List.getElem?_modify]
    cases hl : s.links[n]? with
    | none => rfl
    | some l =>
      by_cases hn : k = n
      · have hc : s.controller (some k) = some l.client.state := by rw [controller, hn, hl]; rfl
        simp only [Inbox.update, Option.map_eq_map, Option.map_some, h _ hc]
      · simp only [Option.map_eq_map, Option.map_some, hn, if_false]

theorem peers_act (who : Option ℕ) (f : NetSystem → NetSystem) (s : Session) :
    (s.act who f).links.map Connection.peer = s.links.map Connection.peer := by
  cases who with
  | none => rfl
  | some k => exact map_modify_iff.mpr fun _ _ => rfl

theorem uplinks_act (who : Option ℕ) (f : NetSystem → NetSystem) (s : Session) :
    (s.act who f).links.map Connection.uplink = s.links.map Connection.uplink := by
  cases who with
  | none => rfl
  | some k => exact map_modify_iff.mpr fun _ _ => rfl

/-- Every controller of a fit session runs, with the callbacks of its class. -/
theorem Fit.controller (h : s.Fit past host) (hc : s.controller who = some c) :
    c.running = true ∧ (c.callbacks = serverCallbacks ∨ c.callbacks = clientCallbacks) := by
  cases who with
  | none =>
    obtain rfl := Option.some.inj hc
    exact ⟨h.server.running, Or.inl h.server.callbacks⟩
  | some k =>
    obtain ⟨l, hl, rfl⟩ := Option.map_eq_some_iff.mp hc
    have hclient := h.clients l (List.mem_of_getElem? hl)
    exact ⟨hclient.running, Or.inr hclient.callbacks⟩

theorem Fit.act (h : s.Fit past host) (hf : ∀ c, (f c).outline = c.outline) :
    (s.act who f).Fit past host := by
  cases who with
  | none =>
    refine ⟨?_, h.clients, h.peers, h.downlinks, h.uplinks, h.alive⟩
    show (f s.server).outline.ServerFit
    rw [hf]
    exact h.server
  | some k => exact h.modify k fun l _ => ⟨rfl, hf _, fun _ hp => hp, fun _ hp => Or.inl hp⟩

/-- A list packet does not fail. -/
theorem receives_packet (hpb : pb.RoundTrips) (h : s.Fit past host) (who : Option ℕ) (peer : Peer)
    (msg : ListMsg) :
    s.receives pb past who peer (msg.packet pb) = s.act who (NetSystem.onRemote msg) := by
  have hreceive : ∀ c, s.controller who = some c →
      c.receive pb past peer (msg.packet pb) = (.ok (), c.onRemote msg) := fun c hc =>
    NetSystem.receive_packet hpb (h.controller hc).1 (h.controller hc).2 past peer msg
  have hfailed : (s.failed || (s.controller who).any fun c =>
      !(c.receive pb past peer (msg.packet pb)).1.isOk) = s.failed := by
    cases hc : s.controller who with
    | none => exact Bool.or_false _
    | some c =>
      rw [Option.any_some, hreceive c hc]
      exact Bool.or_false _
  rw [receives, hfailed, act_congr fun c hc => congrArg Prod.snd (hreceive c hc)]
  cases who <;> rfl

end Session

/-! ## What a session does elsewhere -/

section

variable (pb : Protobuf) (object : AssociatedObject) (listID : UInt32)

/-- A link on which nothing has to do with the list. -/
structure Connection.Leaves (l l' : Connection) : Prop where
  peer : l'.peer = l.peer
  client : NetSystem.LeavesList object listID l.client.state l'.client.state
  uplink : named pb object listID l.uplink = [] → named pb object listID l'.uplink = []

structure Session.Leaves (s s' : Session) : Prop where
  server : NetSystem.LeavesList object listID s.server s'.server
  first : s'.server.getFirstPeer = s.server.getFirstPeer
  links : List.Forall₂ (Connection.Leaves pb object listID) s.links s'.links

/-- A packet that a client makes up is not about the list. -/
def SessionAct.Spares : SessionAct → Prop
  | .inject _ packet => named pb object listID [packet] = []
  | _ => True

end

section

variable {pb : Protobuf} {object : AssociatedObject} {listID : UInt32} {past : Mem} {host : Peer}
  {s : Session}

theorem named_of_none {packets : List Bytes} (h : ∀ packet ∈ packets, listMsgOf pb packet = none) :
    named pb object listID packets = [] := by
  rw [named, List.filterMap_eq_nil_iff.mpr h]
  rfl

/-- Snapshots are not about lists. -/
theorem listMsgOf_packetOf {fs : List Frame} (h : IsSnapshot fs) (sequence : UInt32) :
    listMsgOf pb (packetOf sequence fs) = none := by
  have hcode : codeOf (packetOf sequence fs) = objectFrameCode := by
    simpa using codeOf_packetOf sequence h.fits []
  rw [listMsgOf, hcode, if_neg (by decide), if_neg (by decide), if_neg (by decide)]

theorem addresses_onRemote (msg : ListMsg) :
    NetSystem.Addresses msg.listID fun ctx l => l.onRemote ctx msg :=
  fun _ _ _ h => h.onRemote msg

namespace Session

theorem Connection.Leaves.refl {l : Connection} (h : l.client.state.Shelved) :
    Connection.Leaves pb object listID l l := ⟨rfl, .refl h, id⟩

theorem leaves_refl (hserver : s.server.Shelved) (hclients : ∀ l ∈ s.links, l.client.state.Shelved) :
    Leaves pb object listID s s :=
  ⟨.refl hserver, rfl, List.forall₂_same.mpr fun l hl => Connection.Leaves.refl (hclients l hl)⟩

/-- A change behind one link. -/
theorem leaves_modify (hserver : s.server.Shelved) (hclients : ∀ l ∈ s.links, l.client.state.Shelved)
    (k : ℕ) {f : Connection → Connection}
    (hf : ∀ l, s.links[k]? = some l → Connection.Leaves pb object listID l (f l)) :
    Leaves pb object listID s { s with links := s.links.modify k f } where
  server := .refl hserver
  first := rfl
  links := forall₂_self_modify (fun l hl => Connection.Leaves.refl (hclients l hl)) hf

/-- **What a server receives about other lists.** -/
theorem leaves_receive {c : NetSystem} (h : c.Shelved) (hcb : c.callbacks = serverCallbacks)
    (hrun : c.running = true) (peer : Peer) {packet : Bytes} (hlen : 2 ≤ packet.length)
    (hother : named pb object listID [packet] = []) :
    NetSystem.LeavesList object listID c (c.receive pb past peer packet).2 := by
  rw [receive_server hcb hrun hlen]
  cases hmsg : listMsgOf pb packet with
  | some msg =>
    refine NetSystem.LeavesList.modifyList h (addresses_onRemote msg) fun hnamed => ?_
    simp [named, hmsg, hnamed] at hother
  | none =>
    dsimp only
    split_ifs
    · refine .of_catalog h (handleSnapshot_inv (I := fun c' : NetSystem =>
        c'.catalog NetSystem.shelved = c.catalog NetSystem.shelved) (fun f c' hc' => ?_) _ _ rfl)
      rw [NetSystem.actClient]
      split_ifs
      · exact (NetSystem.catalog_readEntityUpdate f _ c').trans hc'
      · exact hc'
    · exact .refl h

/-- **Nothing that a session does is about the list.** -/
theorem leaves_step (hfit : s.Fit past host) (hserver : s.server.Shelved)
    (hclients : ∀ l ∈ s.links, l.client.state.Shelved)
    (huplinks : ∀ l ∈ s.links, named pb object listID l.uplink = []) {a : SessionAct}
    (ha : a.Spares pb object listID) : Leaves pb object listID s (s.step pb past host a) := by
  cases a with
  | write who address w =>
    have hwrite : ∀ {c : NetSystem}, c.Shelved →
        NetSystem.LeavesList object listID c (c.write address w) := fun h =>
      .of_catalog h (NetSystem.catalog_updateVar (fun _ _ => rfl) _ _ _)
    cases who with
    | none =>
      exact ⟨hwrite hserver, rfl, (leaves_refl hserver hclients).links⟩
    | some k =>
      exact leaves_modify hserver hclients k fun l hl =>
        ⟨rfl, hwrite (hclients l (List.mem_of_getElem? hl)), id⟩
  | tick who =>
    cases who with
    | none =>
      have hrun : s.server.running = true := hfit.server.running
      refine ⟨.of_catalog hserver (NetSystem.catalog_snapshotUpdate hrun), ?_, ?_⟩
      · have houtline : s.server.snapshotUpdate.1.outline = s.server.outline :=
          NetSystem.outline_snapshotUpdate hrun
        exact congrArg (fun o : Outline => o.peerList.head?) houtline
      · refine List.forall₂_map_right_iff.mpr (List.forall₂_same.mpr fun l hl => ?_)
        exact ⟨rfl, .refl (hclients l hl), id⟩
    | some k =>
      refine leaves_modify hserver hclients k fun l hl => ?_
      have hmem := List.mem_of_getElem? hl
      have hclient := hfit.clients l hmem
      obtain ⟨i, hi⟩ := NetSystem.exists_instance hclient.toFit
      refine ⟨rfl, .of_catalog (hclients l hmem) (NetSystem.catalog_snapshotUpdate hclient.running),
        fun hup => ?_⟩
      rw [named_append, hup, List.nil_append, sends_client hclient hi]
      refine named_of_none fun packet hp => ?_
      obtain ⟨sequence, fs, rfl, hfs⟩ := streamPackets_isSnapshot hclient.toFit hi packet hp
      exact listMsgOf_packetOf hfs sequence
  | toServer k =>
    rw [step, toServer]
    cases hl : s.links[k]? with
    | none => exact leaves_refl hserver hclients
    | some l =>
      dsimp only
      cases hup : l.uplink with
      | nil => exact leaves_refl hserver hclients
      | cons packet rest =>
        have hmem := List.mem_of_getElem? hl
        have hnamed := huplinks l hmem
        rw [hup, ← List.singleton_append, named_append, List.append_eq_nil_iff] at hnamed
        have hmod : Leaves pb object listID s
            { s with links := s.links.modify k fun l => { l with uplink := rest } } :=
          leaves_modify hserver hclients k fun l hl =>
            ⟨rfl, .refl (hclients l (List.mem_of_getElem? hl)), fun _ => hnamed.2⟩
        have hlen : 2 ≤ packet.length := (hfit.uplinks l hmem packet (hup ▸ List.mem_cons_self)).1
        have hreceive : NetSystem.LeavesList object listID s.server
            (s.server.receive pb past l.peer packet).2 :=
          leaves_receive hserver hfit.server.callbacks hfit.server.running l.peer hlen hnamed.1
        refine ⟨hreceive, ?_, hmod.links⟩
        have houtline := (NetSystem.receive_others hfit.server.callbacks pb past (p := l.peer) packet).1
        exact congrArg (fun o : Outline => o.peerList.head?) houtline
  | toClient k =>
    rw [step, toClient]
    cases hl : s.links[k]? with
    | none => exact leaves_refl hserver hclients
    | some l =>
      dsimp only
      cases hdown : l.client.pending with
      | nil => exact leaves_refl hserver hclients
      | cons packet rest =>
        have hmem := List.mem_of_getElem? hl
        have hclient := hfit.clients l hmem
        obtain ⟨sequence, fs, rfl, hfs⟩ := hfit.downlinks l hmem packet (hdown ▸ List.mem_cons_self)
        set c' := (fs.map Frame.extended).foldl (fun c f => c.readEntityUpdate f none) l.client.state
        have hmod : Leaves pb object listID s
            { s with links := s.links.modify k fun l' => { l' with client := ⟨c', rest⟩ } } :=
          leaves_modify hserver hclients k fun l' hl' => by
            obtain rfl := Option.some.inj (hl.symm.trans hl')
            exact ⟨rfl, .of_catalog (hclients l hmem)
              (NetSystem.catalog_foldl (fs.map Frame.extended) none l.client.state), id⟩
        dsimp only
        rw [NetSystem.receive_client pb past sequence hfs.few hfs.fits hfs.data hclient.running
          hclient.callbacks host]
        exact ⟨hmod.server, hmod.first, hmod.links⟩
  | inject k packet =>
    refine leaves_modify hserver hclients k fun l hl => ?_
    refine ⟨rfl, .refl (hclients l (List.mem_of_getElem? hl)), fun hup => ?_⟩
    rw [named_append, hup]
    exact ha

/-- An action of one controller. -/
theorem leaves_act (hserver : s.server.Shelved) (hclients : ∀ l ∈ s.links, l.client.state.Shelved)
    {who : Option ℕ} {f : NetSystem → NetSystem} (hout : ∀ c, (f c).outline = c.outline)
    (hf : ∀ c, s.controller who = some c → NetSystem.LeavesList object listID c (f c)) :
    Leaves pb object listID s (s.act who f) := by
  cases who with
  | none =>
    exact ⟨hf s.server rfl, congrArg (fun o : Outline => o.peerList.head?) (hout s.server),
      (leaves_refl hserver hclients).links⟩
  | some k =>
    refine leaves_modify hserver hclients k fun l hl => ⟨rfl, hf _ ?_, id⟩
    rw [controller, hl]
    rfl

variable {s' : Session} {who : Option ℕ} {c : NetSystem}

theorem Leaves.controller (h : Leaves pb object listID s s') (hc : s.controller who = some c) :
    ∃ c', s'.controller who = some c' ∧ NetSystem.LeavesList object listID c c' := by
  cases who with
  | none =>
    obtain rfl := Option.some.inj hc
    exact ⟨s'.server, rfl, h.server⟩
  | some k =>
    obtain ⟨l, hl, rfl⟩ := Option.map_eq_some_iff.mp hc
    obtain ⟨l', hl', hleaves⟩ := forall₂_getElem? h.links hl
    exact ⟨l'.client.state, by rw [Session.controller, hl']; rfl, hleaves.client⟩

theorem Leaves.exists_controller (h : Leaves pb object listID s s') (hc : s'.controller who = some c) :
    ∃ c₀, s.controller who = some c₀ ∧ NetSystem.LeavesList object listID c₀ c := by
  cases who with
  | none =>
    obtain rfl := Option.some.inj hc
    exact ⟨s.server, rfl, h.server⟩
  | some k =>
    obtain ⟨l', hl', rfl⟩ := Option.map_eq_some_iff.mp hc
    obtain ⟨l, hl, hleaves⟩ := forall₂_getElem? h.links.flip hl'
    exact ⟨l.client.state, by rw [Session.controller, hl]; rfl, hleaves.client⟩

/-- A controller keeps a list. -/
def Keeps (who : Option ℕ) (ctx : ListContext) (l : NetVarList) (s : Session) : Prop :=
  ∃ c, s.controller who = some c ∧ c.Keeps ctx l

variable {ctx : ListContext} {l l' : NetVarList} {who' : Option ℕ} {f : NetSystem → NetSystem}

theorem Keeps.leaves (h : s.Keeps who ctx l) (hleaves : Leaves pb ctx.object ctx.listID s s') :
    s'.Keeps who ctx l := by
  obtain ⟨c, hc, hkeeps⟩ := h
  obtain ⟨c', hc', hlist⟩ := hleaves.controller hc
  exact ⟨c', hc', hlist.keeps ctx l rfl rfl hkeeps⟩

theorem Keeps.act_self (h : s.Keeps who ctx l)
    (hf : ∀ c, s.controller who = some c → c.Keeps ctx l → (f c).Keeps ctx l') :
    (s.act who f).Keeps who ctx l' := by
  obtain ⟨c, hc, hkeeps⟩ := h
  exact ⟨f c, by rw [controller_act_self, hc]; rfl, hf c hc hkeeps⟩

theorem Keeps.act_of_ne (h : s.Keeps who ctx l) (hne : who' ≠ who) : (s.act who' f).Keeps who ctx l := by
  obtain ⟨c, hc, hkeeps⟩ := h
  exact ⟨c, by rw [controller_act_of_ne hne, hc], hkeeps⟩

end Session

end

end Nettik
