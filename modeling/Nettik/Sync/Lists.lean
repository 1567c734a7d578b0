import Nettik.Lib.Links
import Nettik.World.ListOps

/-!
# One list between a server, an owner and an observer

A list of an object that a client owns; another client observes it. The server passes the owner's
operations on to the observer and sends its own to both; a client sends to the server and passes
nothing on.

* `ListSetting`: who takes part; `ListExchange`: the three copies behind their queues; `step`;
* `forOwner`, `forObserver`, `forServer`: the messages queued for a party or on their way to it;
* `view`, **`move_step`**: the exchange is a hub with a writer and a reader;
* **`lists_agree`**: at rest the observer's copy is the server's, and so is the owner's for every key
  on which no two operations crossed.
-/

namespace Nettik

open ByteMem Links Replay

/-! ## The parties -/

/-- The clients of a manager with one object each: the owner of the list and the observer. `server` is
the first peer of either client. -/
structure ListSetting where
  object : AssociatedObject
  listID : UInt32
  size : ℕ
  owner : Peer
  observer : Peer
  server : Peer
  distinct : owner ≠ observer
  players : List Peer
  players_perm : players.Perm [owner, observer]
  /-- The first peer of the server, which gets what nobody else gets. -/
  first : Option Peer

namespace ListSetting

/-- What the server's list reads from its parent. -/
def serverContext (g : ListSetting) : ListContext := ⟨g.object, g.players, some g.owner, g.listID⟩

/-- The objects of a client have no peer. -/
def clientContext (g : ListSetting) : ListContext := ⟨g.object, [], none, g.listID⟩

end ListSetting

abbrev ListCopy := Inbox NetVarList ListMsg

structure ListExchange where
  server : ListCopy
  owner : ListCopy
  observer : ListCopy

inductive ListAct (size : ℕ) where
  | callServer (op : ListOp size)
  | callOwner (op : ListOp size)
  | updateServer
  | updateOwner
  | deliverServer
  | deliverOwner
  | deliverObserver
  deriving DecidableEq, Repr

/-- What a dispatch sends to one peer. -/
def sentToPeer (p : Peer) (sent : List (Peer × ListMsg)) : List ListMsg :=
  (sent.filter fun x => x.1 == p).map Prod.snd

/-- What a delta sends to a peer, packet by packet. -/
theorem sentToPeer_updateListDelta (players : List Peer) (firstPeer : Option Peer) (p : Peer)
    (l : NetVarList) : sentToPeer p (l.updateListDelta players firstPeer).2 =
      l.updateQueue.flatMap fun q => sentToPeer p (QueuedPacket.dispatch firstPeer
        { q with peers := q.peers ++ players.filter fun x => some x != q.filter }) := by
  rw [NetVarList.updateListDelta, NetVarList.flush, NetVarList.sendDelta]
  dsimp only
  rw [List.flatMap_map, sentToPeer, List.filter_flatMap, List.map_flatMap]
  rfl

namespace ListExchange

variable (g : ListSetting)

def step (s : ListExchange) : ListAct g.size → ListExchange
  | .callServer op => { s with server := s.server.update fun l => l.call g.serverContext op }
  | .callOwner op => { s with owner := s.owner.update fun l => l.call g.clientContext op }
  | .updateServer =>
    let r := s.server.state.updateListDelta g.players g.first
    { server := s.server.update fun _ => r.1
      owner := s.owner.post (sentToPeer g.owner r.2)
      observer := s.observer.post (sentToPeer g.observer r.2) }
  | .updateOwner =>
    let r := s.owner.state.updateListDelta [] (some g.server)
    { s with
      server := s.server.post (sentToPeer g.server r.2)
      owner := s.owner.update fun _ => r.1 }
  | .deliverServer => { s with server := s.server.deliver fun l msg => l.onRemote g.serverContext msg }
  | .deliverOwner => { s with owner := s.owner.deliver fun l msg => l.onRemote g.clientContext msg }
  | .deliverObserver =>
    { s with observer := s.observer.deliver fun l msg => l.onRemote g.clientContext msg }

/-- Every queue is empty and nothing is in flight. -/
structure AtRest (s : ListExchange) : Prop where
  serverQueue : s.server.state.updateQueue = []
  ownerQueue : s.owner.state.updateQueue = []
  observerQueue : s.observer.state.updateQueue = []
  toServer : s.server.pending = []
  toOwner : s.owner.pending = []
  toObserver : s.observer.pending = []

/-- At rest with equal lists. -/
structure Level (s : ListExchange) : Prop where
  rest : s.AtRest
  serverSize : s.server.state.size = g.size
  ownerSize : s.owner.state.size = g.size
  observerSize : s.observer.state.size = g.size
  ownerSame : ∀ k, s.owner.state.find k = s.server.state.find k
  observerSame : ∀ k, s.observer.state.find k = s.server.state.find k

/-! ## Messages on their way -/

/-- What is queued for a peer: packets that are not kept from it. -/
def queuedFor (p : Peer) (queue : List QueuedPacket) : List ListMsg :=
  (queue.filter fun q => some p != q.filter).map QueuedPacket.msg

def forOwner (s : ListExchange) : List ListMsg :=
  s.owner.pending ++ queuedFor g.owner s.server.state.updateQueue

def forObserver (s : ListExchange) : List ListMsg :=
  s.observer.pending ++ queuedFor g.observer s.server.state.updateQueue

def forServer (s : ListExchange) : List ListMsg :=
  s.server.pending ++ s.owner.state.updateQueue.map QueuedPacket.msg

/-- The operation queues a message about the key. -/
def Changes (k : UInt32) (l l' : NetVarList) : Prop :=
  ∃ q ∈ l'.updateQueue.drop l.updateQueue.length, q.msg.key = k

/-- No call of one side changes the key while a message of the other side about it is on its way. -/
def NoCrossing (k : UInt32) (s : ListExchange) : ListAct g.size → Prop
  | .callServer op => Changes k s.server.state (s.server.state.call g.serverContext op) →
      ∀ msg ∈ s.forServer, msg.key ≠ k
  | .callOwner op => Changes k s.owner.state (s.owner.state.call g.clientContext op) →
      ∀ msg ∈ s.forOwner g, msg.key ≠ k
  | _ => True

/-! ## Routes -/

variable {g}

theorem filter_players {p : Peer} (hp : p = g.owner ∨ p = g.observer) :
    (g.players.filter fun x => x == p) = [p] := by
  have hperm := g.players_perm.filter fun x => x == p
  have hne := g.distinct
  rcases hp with rfl | rfl
  · simpa [Ne.symm hne] using hperm
  · simpa [hne] using hperm

/-- A packet goes to the players it is not kept from. -/
theorem sentToPeer_dispatch {q : QueuedPacket} (hpeers : q.peers = [])
    (hfilter : q.filter = none ∨ q.filter = some g.owner) {p : Peer} (hp : p = g.owner ∨ p = g.observer) :
    sentToPeer p (QueuedPacket.dispatch g.first
      { q with peers := q.peers ++ g.players.filter fun x => some x != q.filter }) =
        if some p != q.filter then [q.msg] else [] := by
  have hobserver : g.observer ∈ g.players.filter fun x => some x != q.filter := by
    refine List.mem_filter.mpr ⟨g.players_perm.mem_iff.mpr (by simp), ?_⟩
    rcases hfilter with h | h
    · simp [h]
    · simpa [h] using Ne.symm g.distinct
  have hsome : (g.players.filter fun x => some x != q.filter).isEmpty = false := by
    rw [List.isEmpty_eq_false_iff]
    exact List.ne_nil_of_mem hobserver
  have hkept : ((g.players.filter fun x => some x != q.filter).filter fun x => x == p) =
      [p].filter fun x => some x != q.filter := by
    rw [List.filter_comm, filter_players hp]
  rw [QueuedPacket.dispatch, hpeers, List.nil_append, hsome, sentToPeer, List.filter_map]
  simp only [Function.comp_def, Bool.false_eq_true, if_false]
  rw [hkept]
  by_cases h : (some p != q.filter) = true <;> simp [h]

/-- **A delta sends to each client what is queued for it.** -/
theorem sentToPeer_delta {l : NetVarList}
    (hqueue : ∀ q ∈ l.updateQueue, q.peers = [] ∧ (q.filter = none ∨ q.filter = some g.owner))
    {p : Peer} (hp : p = g.owner ∨ p = g.observer) :
    sentToPeer p (l.updateListDelta g.players g.first).2 = queuedFor p l.updateQueue := by
  calc sentToPeer p (l.updateListDelta g.players g.first).2
      = l.updateQueue.flatMap fun q => if some p != q.filter then [q.msg] else [] := by
        rw [sentToPeer_updateListDelta]
        exact List.flatMap_congr fun q hq => sentToPeer_dispatch (hqueue q hq).1 (hqueue q hq).2 hp
    _ = queuedFor p l.updateQueue := by
        rw [queuedFor]
        induction l.updateQueue with
        | nil => rfl
        | cons q qs ih =>
          rw [List.flatMap_cons, ih, List.filter_cons]
          split_ifs <;> rfl

/-- A client sends everything to the server. -/
theorem sentToPeer_client {l : NetVarList} (hqueue : ∀ q ∈ l.updateQueue, q.peers = []) :
    sentToPeer g.server (l.updateListDelta [] (some g.server)).2 =
      l.updateQueue.map QueuedPacket.msg := by
  rw [sentToPeer_updateListDelta, ← List.flatMap_pure_eq_map]
  refine List.flatMap_congr fun q hq => ?_
  simp [sentToPeer, QueuedPacket.dispatch, hqueue q hq]

/-! ## The exchange as a hub -/

/-- The elements of the three copies and the operations on their way. -/
def view (g : ListSetting) (s : ListExchange) : Hub UInt32 Bytes where
  hub := s.server.state.elements
  writer := s.owner.state.elements
  reader := s.observer.state.elements
  toHub := s.forServer.map ListMsg.op
  toWriter := (s.forOwner g).map ListMsg.op
  toReader := (s.forObserver g).map ListMsg.op

/-- Elements and messages have the size of the list. The server keeps a packet from the owner or from
nobody, and peers are added only when the queue is flushed. -/
structure Sound (g : ListSetting) (s : ListExchange) : Prop where
  serverSize : s.server.state.size = g.size
  ownerSize : s.owner.state.size = g.size
  observerSize : s.observer.state.size = g.size
  serverQueue : ∀ q ∈ s.server.state.updateQueue,
    q.peers = [] ∧ (q.filter = none ∨ q.filter = some g.owner)
  ownerQueue : ∀ q ∈ s.owner.state.updateQueue, q.peers = []
  forServer : ∀ msg ∈ s.forServer, msg.Sized g.size
  forOwner : ∀ msg ∈ s.forOwner g, msg.Sized g.size
  forObserver : ∀ msg ∈ s.forObserver g, msg.Sized g.size

theorem queuedFor_append (p : Peer) (queue queue' : List QueuedPacket) :
    queuedFor p (queue ++ queue') = queuedFor p queue ++ queuedFor p queue' := by
  rw [queuedFor, List.filter_append, List.map_append]
  rfl

/-- Packets for everybody. -/
theorem queuedFor_all (p : Peer) (ms : List ListMsg) :
    queuedFor p (ms.map fun m => ⟨m, none, []⟩) = ms := by
  have hall : ∀ q ∈ ms.map fun m => (⟨m, none, []⟩ : QueuedPacket), (some p != q.filter) = true := by
    intro q hq
    obtain ⟨m, -, rfl⟩ := List.mem_map.mp hq
    rfl
  rw [queuedFor, List.filter_eq_self.mpr hall]
  simp [Function.comp_def]

/-- Packets that are passed on. -/
theorem queuedFor_passed (p p' : Peer) (ms : List ListMsg) :
    queuedFor p (ms.map fun m => ⟨m, some p', []⟩) = if p = p' then [] else ms := by
  have hsame : ∀ q ∈ ms.map fun m => (⟨m, some p', []⟩ : QueuedPacket),
      (some p != q.filter) = !(p == p') := by
    intro q hq
    obtain ⟨m, -, rfl⟩ := List.mem_map.mp hq
    rfl
  rw [queuedFor, List.filter_congr hsame]
  by_cases h : p = p'
  · simp [h]
  · have hb : (p == p') = false := beq_false_of_ne h
    simp [h, hb, Function.comp_def]

variable {s : ListExchange}

/-- A message changes nothing unless its key is among those queued. -/
theorem changes_iff {ctx : ListContext} {l l' : NetVarList} {ms : List ListMsg}
    (h : NetVarList.Logs ctx l l' ms) (k : UInt32) :
    Changes k l l' ↔ ¬ Spares k (ms.map ListMsg.op) := by
  rw [Changes, h.queue, List.drop_left]
  simp only [Spares, List.mem_map, forall_exists_index, and_imp, not_forall]
  constructor
  · rintro ⟨q, ⟨m, hm, rfl⟩, hk⟩
    exact ⟨_, m, hm, rfl, fun hne => hne (hk.symm.trans (ListMsg.key_op m).symm)⟩
  · rintro ⟨op, m, hm, rfl, hk⟩
    exact ⟨_, ⟨m, hm, rfl⟩, ((not_ne_iff.mp hk).trans (ListMsg.key_op m)).symm⟩

theorem spares_iff {k : UInt32} {ms : List ListMsg} :
    Spares k (ms.map ListMsg.op) ↔ ∀ msg ∈ ms, msg.key ≠ k := by
  simp only [Spares, List.mem_map, forall_exists_index, and_imp, forall_apply_eq_imp_iff₂,
    ListMsg.key_op]
  exact forall₂_congr fun msg _ => ne_comm

/-- A step is a move of the hub. -/
structure Steps (g : ListSetting) (s s' : ListExchange) (mv : Move UInt32 Bytes) : Prop where
  view_eq : s'.view g = (s.view g).move mv
  faithful : (s.view g).Faithful mv
  sound : s'.Sound g

theorem steps_callServer (h : s.Sound g) (op : ListOp g.size) : ∃ mv,
    Steps g s (s.step g (.callServer op)) mv ∧
      ∀ k, NoCrossing g k s (.callServer op) → (s.view g).Apart k mv := by
  obtain ⟨ms, log⟩ := NetVarList.logs_call g.serverContext h.serverSize op
  have hqueue : ∀ p, queuedFor p (s.server.state.call g.serverContext op).updateQueue =
      queuedFor p s.server.state.updateQueue ++ ms := by
    intro p
    rw [log.queue, queuedFor_append, queuedFor_all]
  have howner : (s.step g (.callServer op)).forOwner g = s.forOwner g ++ ms := by
    simp only [forOwner, step, Inbox.update_state, hqueue, List.append_assoc]
  have hobserver : (s.step g (.callServer op)).forObserver g = s.forObserver g ++ ms := by
    simp only [forObserver, step, Inbox.update_state, hqueue, List.append_assoc]
  have hsized : ∀ msg ∈ ms, msg.Sized g.size := h.serverSize ▸ log.sized
  refine ⟨.writeHub (ms.map ListMsg.op), ⟨?_, trivial, ?_⟩, fun k hcross hspares => ?_⟩
  · rw [view, howner, hobserver, List.map_append, List.map_append]
    exact congrArg (fun m => Hub.mk m _ _ _ _ _) log.elements
  · refine { h with
      serverSize := log.size_eq.trans h.serverSize
      serverQueue := ?_
      forOwner := ?_
      forObserver := ?_ }
    · intro q hq
      rw [show (s.step g (.callServer op)).server.state.updateQueue = _ from log.queue,
        List.mem_append] at hq
      rcases hq with hq | hq
      · exact h.serverQueue q hq
      · obtain ⟨m, -, rfl⟩ := List.mem_map.mp hq
        exact ⟨rfl, Or.inl rfl⟩
    · rw [howner]
      exact fun msg hmsg => (List.mem_append.mp hmsg).elim (h.forOwner msg) (hsized msg)
    · rw [hobserver]
      exact fun msg hmsg => (List.mem_append.mp hmsg).elim (h.forObserver msg) (hsized msg)
  · exact spares_iff.mpr (hcross ((changes_iff log k).mpr hspares))

theorem steps_callOwner (h : s.Sound g) (op : ListOp g.size) : ∃ mv,
    Steps g s (s.step g (.callOwner op)) mv ∧
      ∀ k, NoCrossing g k s (.callOwner op) → (s.view g).Apart k mv := by
  obtain ⟨ms, log⟩ := NetVarList.logs_call g.clientContext h.ownerSize op
  have hserver : (s.step g (.callOwner op)).forServer = s.forServer ++ ms := by
    simp only [forServer, step, Inbox.update_state, log.queue, List.map_append, List.map_map,
      List.append_assoc]
    simp [Function.comp_def]
  have hsized : ∀ msg ∈ ms, msg.Sized g.size := h.ownerSize ▸ log.sized
  refine ⟨.writeWriter (ms.map ListMsg.op), ⟨?_, trivial, ?_⟩, fun k hcross hspares => ?_⟩
  · rw [view, hserver, List.map_append]
    exact congrArg (fun m => Hub.mk _ m _ _ _ _) log.elements
  · refine { h with ownerSize := log.size_eq.trans h.ownerSize, ownerQueue := ?_, forServer := ?_ }
    · intro q hq
      rw [show (s.step g (.callOwner op)).owner.state.updateQueue = _ from log.queue,
        List.mem_append] at hq
      rcases hq with hq | hq
      · exact h.ownerQueue q hq
      · obtain ⟨m, -, rfl⟩ := List.mem_map.mp hq
        rfl
    · rw [hserver]
      exact fun msg hmsg => (List.mem_append.mp hmsg).elim (h.forServer msg) (hsized msg)
  · exact spares_iff.mpr (hcross ((changes_iff log k).mpr hspares))

/-- A flush moves what is queued to the links. -/
theorem steps_updateServer (h : s.Sound g) : Steps g s (s.step g .updateServer) .idle := by
  have howner : (s.step g .updateServer).forOwner g = s.forOwner g := by
    show (s.owner.pending ++ sentToPeer g.owner _) ++ queuedFor g.owner [] = _
    rw [sentToPeer_delta h.serverQueue (Or.inl rfl)]
    exact List.append_nil _
  have hobserver : (s.step g .updateServer).forObserver g = s.forObserver g := by
    show (s.observer.pending ++ sentToPeer g.observer _) ++ queuedFor g.observer [] = _
    rw [sentToPeer_delta h.serverQueue (Or.inr rfl)]
    exact List.append_nil _
  refine ⟨?_, trivial, ?_⟩
  · rw [view, howner, hobserver]
    rfl
  · refine { h with
      serverQueue := fun q hq => absurd hq List.not_mem_nil
      forOwner := ?_
      forObserver := ?_ }
    · rw [howner]
      exact h.forOwner
    · rw [hobserver]
      exact h.forObserver

theorem steps_updateOwner (h : s.Sound g) : Steps g s (s.step g .updateOwner) .idle := by
  have hserver : (s.step g .updateOwner).forServer = s.forServer := by
    show (s.server.pending ++ sentToPeer g.server _) ++ [] = _
    rw [sentToPeer_client h.ownerQueue]
    exact List.append_nil _
  refine ⟨?_, trivial, ?_⟩
  · rw [view, hserver]
    rfl
  · refine { h with ownerQueue := fun q hq => absurd hq List.not_mem_nil, forServer := ?_ }
    rw [hserver]
    exact h.forServer

/-- A delivery to the server passes messages on to the observer, and none back to the owner. -/
theorem deliverServer_passes {msg : ListMsg} {rest : List ListMsg}
    (hp : s.server.pending = msg :: rest) (hmsg : msg.Sized s.server.state.size) : ∃ ms : List ListMsg,
    (s.server.state.onRemote g.serverContext msg).updateQueue =
      s.server.state.updateQueue ++ ms.map (fun m => ⟨m, some g.owner, []⟩) ∧
    (s.server.state.onRemote g.serverContext msg).elements =
      replay s.server.state.elements (ms.map ListMsg.op) ∧
    (∀ m ∈ ms, m.Sized s.server.state.size) ∧
    (s.step g .deliverServer).forOwner g = s.forOwner g ∧
    (s.step g .deliverServer).forObserver g = s.forObserver g ++ ms := by
  have hmany : 1 < g.serverContext.players.length := by
    have hlen := g.players_perm.length_eq
    show 1 < g.players.length
    rw [hlen]
    exact Nat.one_lt_two
  obtain ⟨ms, hqueue, helements, hsized⟩ := NetVarList.onRemote_passesOn hmany hmsg
  have hstep : s.step g .deliverServer =
      { s with server := ⟨s.server.state.onRemote g.serverContext msg, rest⟩ } := by
    rw [step, Inbox.deliver_cons _ hp]
  refine ⟨ms, hqueue, helements, hsized, ?_, ?_⟩
  · rw [hstep]
    show s.owner.pending ++
      queuedFor g.owner (s.server.state.onRemote g.serverContext msg).updateQueue = _
    rw [hqueue, queuedFor_append]
    show _ ++ (_ ++ queuedFor g.owner (ms.map fun m => ⟨m, some g.owner, []⟩)) = _
    rw [queuedFor_passed, if_pos rfl, List.append_nil]
    rfl
  · rw [hstep]
    show s.observer.pending ++
      queuedFor g.observer (s.server.state.onRemote g.serverContext msg).updateQueue = _
    rw [hqueue, queuedFor_append]
    show _ ++ (_ ++ queuedFor g.observer (ms.map fun m => ⟨m, some g.owner, []⟩)) = _
    rw [queuedFor_passed, if_neg (Ne.symm g.distinct), forObserver, List.append_assoc]

/-- The server takes the owner's next message, and passes it on to the observer. -/
theorem steps_deliverServer (h : s.Sound g) : ∃ mv, Steps g s (s.step g .deliverServer) mv ∧
    ∀ k, (s.view g).Apart k mv := by
  cases hp : s.server.pending with
  | nil =>
    refine ⟨.idle, ?_, fun k => trivial⟩
    have hsame : s.step g .deliverServer = s := by rw [step, Inbox.deliver_nil _ hp]
    rw [hsame]
    exact ⟨rfl, trivial, h⟩
  | cons msg rest =>
    have hfor : s.forServer = msg :: (rest ++ s.owner.state.updateQueue.map QueuedPacket.msg) := by
      rw [forServer, hp, List.cons_append]
    have hmsg : msg.Sized s.server.state.size := by
      rw [h.serverSize]
      exact h.forServer msg (hfor ▸ List.mem_cons_self)
    obtain ⟨ms, hqueue, helements, hsized, howner, hobserver⟩ := deliverServer_passes hp hmsg
    have hstep : s.step g .deliverServer =
        { s with server := ⟨s.server.state.onRemote g.serverContext msg, rest⟩ } := by
      rw [step, Inbox.deliver_cons _ hp]
    have hserver : (s.step g .deliverServer).forServer =
        rest ++ s.owner.state.updateQueue.map QueuedPacket.msg := by
      rw [hstep]
      rfl
    refine ⟨.deliverHub (ms.map ListMsg.op), ⟨?_, ?_, ?_⟩, fun k => trivial⟩
    · rw [view, howner, hobserver, hserver, hstep]
      show Hub.mk (s.server.state.onRemote g.serverContext msg).elements _ _ _ _ _ =
        Hub.mk _ _ _ (s.forServer.map ListMsg.op).tail _ _
      rw [helements, hfor]
      simp only [List.map_append, List.map_cons, List.tail_cons]
      rfl
    · show replay s.server.state.elements _ = replay s.server.state.elements ((s.forServer.map _).take 1)
      rw [← helements, hfor, NetVarList.elements_onRemote hmsg]
      rfl
    · rw [hstep] at howner hobserver hserver ⊢
      refine { h with
        serverSize := ?_
        serverQueue := ?_
        forServer := ?_
        forOwner := ?_
        forObserver := ?_ }
      · exact (NetVarList.size_onRemote _ msg _).trans h.serverSize
      · intro q (hq : q ∈ (s.server.state.onRemote g.serverContext msg).updateQueue)
        rw [hqueue, List.mem_append] at hq
        rcases hq with hq | hq
        · exact h.serverQueue q hq
        · obtain ⟨m, -, rfl⟩ := List.mem_map.mp hq
          exact ⟨rfl, Or.inr rfl⟩
      · rw [hserver]
        exact fun m hm => h.forServer m (hfor ▸ List.mem_cons_of_mem msg hm)
      · rw [howner]
        exact h.forOwner
      · rw [hobserver]
        refine fun m hm => (List.mem_append.mp hm).elim (h.forObserver m) fun hm => ?_
        rw [← h.serverSize]
        exact hsized m hm

/-- A client passes nothing on. -/
theorem updateQueue_client (g : ListSetting) (msg : ListMsg) (l : NetVarList) :
    (l.onRemote g.clientContext msg).updateQueue = l.updateQueue := by
  have hnone : g.clientContext.players.length ≤ 1 := Nat.zero_le 1
  exact NetVarList.updateQueue_onRemote hnone msg l

theorem steps_deliverOwner (h : s.Sound g) : ∃ mv, Steps g s (s.step g .deliverOwner) mv ∧
    ∀ k, (s.view g).Apart k mv := by
  cases hp : s.owner.pending with
  | nil =>
    refine ⟨.idle, ?_, fun k => trivial⟩
    have hsame : s.step g .deliverOwner = s := by rw [step, Inbox.deliver_nil _ hp]
    rw [hsame]
    exact ⟨rfl, trivial, h⟩
  | cons msg rest =>
    have hfor : s.forOwner g = msg :: (rest ++ queuedFor g.owner s.server.state.updateQueue) := by
      rw [forOwner, hp, List.cons_append]
    have hmsg : msg.Sized s.owner.state.size := by
      rw [h.ownerSize]
      exact h.forOwner msg (hfor ▸ List.mem_cons_self)
    have hqueue := updateQueue_client g msg s.owner.state
    have hstep : s.step g .deliverOwner =
        { s with owner := ⟨s.owner.state.onRemote g.clientContext msg, rest⟩ } := by
      rw [step, Inbox.deliver_cons _ hp]
    have hserver : (s.step g .deliverOwner).forServer = s.forServer := by
      rw [hstep]
      show s.server.pending ++ (s.owner.state.onRemote g.clientContext msg).updateQueue.map _ = _
      rw [hqueue]
      rfl
    refine ⟨.deliverWriter, ⟨?_, trivial, ?_⟩, fun k => trivial⟩
    · rw [view, hserver, hstep]
      show Hub.mk _ (s.owner.state.onRemote g.clientContext msg).elements _ _ _ _ =
        Hub.mk _ (replay _ ((s.forOwner g).map ListMsg.op |>.take 1)) _ _
          ((s.forOwner g).map ListMsg.op).tail _
      rw [hfor, NetVarList.elements_onRemote hmsg]
      rfl
    · rw [hstep] at hserver ⊢
      refine { h with ownerSize := ?_, ownerQueue := ?_, forServer := ?_, forOwner := ?_ }
      · exact (NetVarList.size_onRemote _ msg _).trans h.ownerSize
      · intro q (hq : q ∈ (s.owner.state.onRemote g.clientContext msg).updateQueue)
        rw [hqueue] at hq
        exact h.ownerQueue q hq
      · rw [hserver]
        exact h.forServer
      · exact fun m hm => h.forOwner m (hfor ▸ List.mem_cons_of_mem msg hm)

theorem steps_deliverObserver (h : s.Sound g) : ∃ mv, Steps g s (s.step g .deliverObserver) mv ∧
    ∀ k, (s.view g).Apart k mv := by
  cases hp : s.observer.pending with
  | nil =>
    refine ⟨.idle, ?_, fun k => trivial⟩
    have hsame : s.step g .deliverObserver = s := by rw [step, Inbox.deliver_nil _ hp]
    rw [hsame]
    exact ⟨rfl, trivial, h⟩
  | cons msg rest =>
    have hfor : s.forObserver g = msg :: (rest ++ queuedFor g.observer s.server.state.updateQueue) := by
      rw [forObserver, hp, List.cons_append]
    have hmsg : msg.Sized s.observer.state.size := by
      rw [h.observerSize]
      exact h.forObserver msg (hfor ▸ List.mem_cons_self)
    have hstep : s.step g .deliverObserver =
        { s with observer := ⟨s.observer.state.onRemote g.clientContext msg, rest⟩ } := by
      rw [step, Inbox.deliver_cons _ hp]
    refine ⟨.deliverReader, ⟨?_, trivial, ?_⟩, fun k => trivial⟩
    · rw [view, hstep]
      show Hub.mk _ _ (s.observer.state.onRemote g.clientContext msg).elements _ _ _ =
        Hub.mk _ _ (replay _ ((s.forObserver g).map ListMsg.op |>.take 1)) _ _
          ((s.forObserver g).map ListMsg.op).tail
      rw [hfor, NetVarList.elements_onRemote hmsg]
      rfl
    · rw [hstep]
      refine { h with observerSize := ?_, forObserver := ?_ }
      · exact (NetVarList.size_onRemote _ msg _).trans h.observerSize
      · exact fun m hm => h.forObserver m (hfor ▸ List.mem_cons_of_mem msg hm)

/-- **Every step is a move of the hub**, and steps that do not cross are moves that do not cross. -/
theorem move_step (h : s.Sound g) (a : ListAct g.size) : ∃ mv, Steps g s (s.step g a) mv ∧
    ∀ k, NoCrossing g k s a → (s.view g).Apart k mv := by
  cases a with
  | callServer op => exact steps_callServer h op
  | callOwner op => exact steps_callOwner h op
  | updateServer => exact ⟨.idle, steps_updateServer h, fun k _ => trivial⟩
  | updateOwner => exact ⟨.idle, steps_updateOwner h, fun k _ => trivial⟩
  | deliverServer =>
    obtain ⟨mv, hmv, hapart⟩ := steps_deliverServer h
    exact ⟨mv, hmv, fun k _ => hapart k⟩
  | deliverOwner =>
    obtain ⟨mv, hmv, hapart⟩ := steps_deliverOwner h
    exact ⟨mv, hmv, fun k _ => hapart k⟩
  | deliverObserver =>
    obtain ⟨mv, hmv, hapart⟩ := steps_deliverObserver h
    exact ⟨mv, hmv, fun k _ => hapart k⟩

/-! ## Agreement -/

/-- The observer follows the server. -/
structure Flowing (g : ListSetting) (s : ListExchange) : Prop where
  sound : s.Sound g
  followed : (s.view g).Followed

theorem Flowing.step (h : s.Flowing g) (a : ListAct g.size) : (s.step g a).Flowing g := by
  obtain ⟨mv, hmv, -⟩ := move_step h.sound a
  refine ⟨hmv.sound, ?_⟩
  rw [hmv.view_eq]
  exact h.followed.move mv

/-- Server and owner are in step at a key. -/
def InStep (g : ListSetting) (k : UInt32) (s : ListExchange) : Prop :=
  InStepAt k (s.view g).hub (s.view g).writer (s.view g).toHub (s.view g).toWriter

theorem inStep_step {k : UInt32} (a : ListAct g.size) (h : s.Sound g ∧ s.InStep g k)
    (hok : NoCrossing g k s a) : (s.step g a).Sound g ∧ (s.step g a).InStep g k := by
  obtain ⟨mv, hmv, hapart⟩ := move_step h.1 a
  refine ⟨hmv.sound, ?_⟩
  rw [InStep, hmv.view_eq]
  exact Hub.inStepAt_move h.2 hmv.faithful (hapart k hok)

namespace AtRest

theorem forServer (h : s.AtRest) : s.forServer = [] := by
  rw [ListExchange.forServer, h.toServer, h.ownerQueue]
  rfl

theorem forOwner (h : s.AtRest) : s.forOwner g = [] := by
  rw [ListExchange.forOwner, h.toOwner, h.serverQueue]
  rfl

theorem forObserver (h : s.AtRest) : s.forObserver g = [] := by
  rw [ListExchange.forObserver, h.toObserver, h.serverQueue]
  rfl

end AtRest

theorem Level.flowing (h : s.Level g) : s.Flowing g where
  sound :=
    { serverSize := h.serverSize
      ownerSize := h.ownerSize
      observerSize := h.observerSize
      serverQueue := by simp [h.rest.serverQueue]
      ownerQueue := by simp [h.rest.ownerQueue]
      forServer := by simp [h.rest.forServer]
      forOwner := by simp [h.rest.forOwner]
      forObserver := by simp [h.rest.forObserver] }
  followed := by
    show replay s.observer.state.elements ((s.forObserver g).map ListMsg.op) = s.server.state.elements
    rw [h.rest.forObserver]
    exact funext h.observerSame

theorem Level.inStep (h : s.Level g) (k : UInt32) : s.InStep g k := by
  have hserver : (s.view g).toHub = [] := by rw [view, h.rest.forServer]; rfl
  have howner : (s.view g).toWriter = [] := by rw [view, h.rest.forOwner]; rfl
  rw [InStep, hserver, howner]
  exact ⟨Or.inl (spares_nil k), fun _ => (h.ownerSame k).symm, fun _ => h.ownerSame k⟩

/-- With nothing on its way, the observer holds what the server holds. -/
theorem Flowing.observer_find (h : s.Flowing g) (hrest : s.AtRest) (k : UInt32) :
    s.observer.state.find k = s.server.state.find k := by
  have hobserver : (s.view g).toReader = [] := by rw [view, hrest.forObserver]; rfl
  have hfollowed := congrFun h.followed k
  rw [hobserver] at hfollowed
  exact hfollowed

theorem InStep.owner_find {k : UInt32} (h : s.InStep g k) (hrest : s.AtRest) :
    s.owner.state.find k = s.server.state.find k := by
  have hserver : (s.view g).toHub = [] := by rw [view, hrest.forServer]; rfl
  have howner : (s.view g).toWriter = [] := by rw [view, hrest.forOwner]; rfl
  have hagree := h.toRight (hserver ▸ spares_nil k)
  rw [howner] at hagree
  exact hagree

theorem flowing_run (h : s.Flowing g) (acts : List (ListAct g.size)) : (run (step g) s acts).Flowing g :=
  run_inv (fun _ a h _ => h.step a) h (along_of_forall (fun _ _ => trivial) s)

/-- **Lists at rest.** The observer holds what the server holds. The owner does, too, for every key on
which no operation of the one side crossed one of the other. -/
theorem lists_agree {s : ListExchange} (hs : s.Level g) {acts : List (ListAct g.size)}
    (hrest : (run (step g) s acts).AtRest) (k : UInt32) :
    (run (step g) s acts).observer.state.find k = (run (step g) s acts).server.state.find k ∧
      (Along (step g) (NoCrossing g k) s acts →
        (run (step g) s acts).owner.state.find k = (run (step g) s acts).server.state.find k) := by
  refine ⟨(flowing_run hs.flowing acts).observer_find hrest k, fun hok => ?_⟩
  have hstep : (run (step g) s acts).Sound g ∧ (run (step g) s acts).InStep g k :=
    run_inv (I := fun s : ListExchange => s.Sound g ∧ s.InStep g k)
      (fun _ a h hok => inStep_step a h hok) ⟨hs.flowing.sound, hs.inStep k⟩ hok
  exact hstep.2.owner_find hrest

/-- Two clients with a list of bytes. -/
def byteSetting : ListSetting where
  object := ⟨[119], [112], 0⟩
  listID := 0
  size := 1
  owner := 1
  observer := 2
  server := 0
  distinct := by decide
  players := [1, 2]
  players_perm := List.Perm.refl _
  first := some 1

/-- Three empty lists. -/
def emptyLists : ListExchange where
  server := { state := { size := 1, initial := Vector.replicate 1 0 } }
  owner := { state := { size := 1, initial := Vector.replicate 1 0 } }
  observer := { state := { size := 1, initial := Vector.replicate 1 0 } }

theorem emptyLists_level : emptyLists.Level byteSetting where
  rest := ⟨rfl, rfl, rfl, rfl, rfl, rfl⟩
  serverSize := rfl
  ownerSize := rfl
  observerSize := rfl
  ownerSame _ := rfl
  observerSame _ := rfl

/-- The owner makes an element, and it reaches everybody. -/
def ownersElement : List (ListAct 1) :=
  [.callOwner (.create 5 (Vector.replicate 1 7)), .updateOwner, .deliverServer, .updateServer,
    .deliverObserver]

theorem ownersElement_atRest : (run (step byteSetting) emptyLists ownersElement).AtRest :=
  ⟨rfl, rfl, rfl, rfl, rfl, rfl⟩

theorem lists_agree_ownersElement :
    Along (step byteSetting) (NoCrossing byteSetting 5) emptyLists ownersElement ∧
    ((run (step byteSetting) emptyLists ownersElement).observer.state.find 5 =
        (run (step byteSetting) emptyLists ownersElement).server.state.find 5 ∧
      (run (step byteSetting) emptyLists ownersElement).owner.state.find 5 =
        (run (step byteSetting) emptyLists ownersElement).server.state.find 5) := by
  have hok : Along (step byteSetting) (NoCrossing byteSetting 5) emptyLists ownersElement :=
    ⟨fun _ msg hmsg => absurd hmsg List.not_mem_nil, trivial, trivial, trivial, trivial, trivial⟩
  obtain ⟨hobserver, howner⟩ := lists_agree emptyLists_level ownersElement_atRest 5
  exact ⟨hok, hobserver, howner hok⟩

/-- Server and owner make an element of the same key before either hears of the other. -/
def crossedElements : List (ListAct 1) :=
  [.callServer (.create 5 (Vector.replicate 1 6)), .callOwner (.create 5 (Vector.replicate 1 7)),
    .updateServer, .updateOwner, .deliverServer, .deliverOwner, .deliverObserver, .updateServer,
    .deliverObserver]

theorem crossedElements_disagree : emptyLists.Level byteSetting ∧
    (run (step byteSetting) emptyLists crossedElements).AtRest ∧
    (run (step byteSetting) emptyLists crossedElements).owner.state.find 5 ≠
      (run (step byteSetting) emptyLists crossedElements).server.state.find 5 :=
  ⟨emptyLists_level, ⟨rfl, rfl, rfl, rfl, rfl, rfl⟩, by decide⟩

end ListExchange

end Nettik
