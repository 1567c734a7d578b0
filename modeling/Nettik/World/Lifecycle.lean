import Nettik.Sync.Connect

/-!
# Starting and stopping

A controller with its two threads, the transport, and the handlers of transport events.

* `stop`, `fireEvent`, `processNetStack`: a thread that stops the controller may end itself;
* `step`: the application starts, stops and listens, the threads take their turns;
* **`peers_connected`**: the peers of a server are those that are connected, in the order they came;
* **`stopped_silent`**: a server that its application stopped is silent, also when it is started again;
* **`lost_lingers`**: a client that loses its server goes on running, and never hears anything again.
-/

namespace Nettik

open ByteMem Loops Links

/-! ## Threads and events -/

/-- An `INetworkThread`: whether it has a handle, and whether it runs. -/
structure INetworkThread where
  handle : Bool := false
  running : Bool := false
  deriving DecidableEq, Repr

/-- A thread is created once. -/
def INetworkThread.start (t : INetworkThread) : INetworkThread :=
  if t.handle || t.running then t else ⟨true, true⟩

/-- The destructor calls `TerminateThread`. -/
def INetworkThread.terminates (t : INetworkThread) : Bool := t.handle && t.running

inductive EventType where
  | connect
  | disconnect
  | receive
  deriving DecidableEq, Repr

inductive NetEvent where
  | connect (peer : Peer)
  | disconnect (peer : Peer)
  | receive (peer : Peer) (packet : Bytes)
  deriving DecidableEq, Repr

def NetEvent.type : NetEvent → EventType
  | .connect _ => .connect
  | .disconnect _ => .disconnect
  | .receive _ _ => .receive

/-- What `Listen` binds, what `Connect` binds, and handlers of the application. -/
inductive EventHandler where
  | sendWorld
  | stop
  | application
  deriving DecidableEq, Repr

/-- The thread that makes a call; the application makes its calls from neither. -/
inductive Worker where
  | net
  | sync
  deriving DecidableEq, Repr

/-- `host` is false without an ENet host. The last four fields are records: what was handed to the
transport, the peers it was told to disconnect, the events it handed out, and whether an exception left
a thread, which ends the process. -/
structure Controller extends NetSystem where
  thread : Option INetworkThread := some {}
  syncThread : Option INetworkThread := some {}
  shuttingDown : Bool := false
  connected : Bool := false
  host : Bool := false
  eventCallbacks : List (EventType × EventHandler) := []
  sends : List Send := []
  disconnects : List Peer := []
  serviced : List NetEvent := []
  failed : Bool := false

namespace Controller

/-- The destructor ends the thread that runs it. -/
def ends (caller : Option Worker) (w : Worker) (t : Option INetworkThread) : Bool :=
  caller == some w && t.any INetworkThread.terminates

/-- A thread after its destructor, when the object is not yet freed. -/
def ended (t : Option INetworkThread) : Option INetworkThread := t.map fun t => { t with running := false }

/-- Whether the caller goes on, and the state. -/
def stop (caller : Option Worker) (c : Controller) : Bool × Controller :=
  if !c.running then (true, c)
  else if ends caller .net c.thread then
    (false, { c with shuttingDown := true, thread := ended c.thread })
  else if ends caller .sync c.syncThread then
    (false, { c with shuttingDown := true, thread := none, syncThread := ended c.syncThread })
  else
    (true, { c with
      thread := none
      syncThread := none
      running := false
      connected := false
      disconnects := c.disconnects ++ c.peerList
      peerList := []
      host := false
      shuttingDown := false })

def start (c : Controller) : Controller :=
  { c with
    running := true
    thread := c.thread.map INetworkThread.start
    syncThread := c.syncThread.map INetworkThread.start }

/-! ### Events -/

def handlersOf (type : EventType) (c : Controller) : List EventHandler :=
  c.eventCallbacks.filterMap fun b => if b.1 = type then some b.2 else none

def runEventHandler (pb : Protobuf) (caller : Option Worker) (e : NetEvent) (h : EventHandler)
    (c : Controller) : Bool × Controller :=
  match h, e with
  | .sendWorld, .connect peer =>
    let r := c.connectHandler pb peer
    (true, { c with toNetSystem := r.1, sends := c.sends ++ r.2 })
  | .sendWorld, _ => (true, c)
  | .stop, _ => c.stop caller
  | .application, _ => (true, c)

/-- One handler after the other, while the thread goes on. -/
def runEventHandlers (pb : Protobuf) (caller : Option Worker) (e : NetEvent) :
    List EventHandler → Controller → Bool × Controller
  | [], c => (true, c)
  | h :: hs, c =>
    let r := c.runEventHandler pb caller e h
    if r.1 then runEventHandlers pb caller e hs r.2 else r

def fireEvent (pb : Protobuf) (caller : Option Worker) (e : NetEvent) (c : Controller) : Bool × Controller :=
  if !c.running then (true, c) else runEventHandlers pb caller e (c.handlersOf e.type) c

/-- The body of the loop of `ProcessNetStack`: the listeners hear of an event first. -/
def processEvent (pb : Protobuf) (past : Mem) (caller : Option Worker) (e : NetEvent) (c : Controller) :
    Bool × Controller :=
  let r := fireEvent pb caller e { c with serviced := c.serviced ++ [e] }
  if !r.1 then r
  else
    match e with
    | .connect peer => (true, { r.2 with peerList := r.2.peerList ++ [peer], connected := true })
    | .disconnect peer => (true, { r.2 with peerList := r.2.peerList.erase peer, connected := false })
    | .receive peer packet =>
      let p := r.2.toNetSystem.receive pb past peer packet
      (p.1.isOk, { r.2 with toNetSystem := p.2, failed := r.2.failed || !p.1.isOk })

/-- `events` is what the transport hands out until it has nothing more. -/
def processNetStack (pb : Protobuf) (past : Mem) (caller : Option Worker) :
    List NetEvent → Controller → Bool × Controller
  | [], c => (true, c)
  | e :: events, c =>
    if c.host && c.running then
      let r := c.processEvent pb past caller e
      if r.1 then processNetStack pb past caller events r.2 else r
    else (true, c)

/-! ### The calls of the application -/

/-- `InitializeHost` made a host; the addresses are fine. -/
def listen (c : Controller) : Controller :=
  { c with host := true, connected := true,
           eventCallbacks := c.eventCallbacks ++ [(.connect, .sendWorld)] }

/-- `Connect` binds its handlers whatever the transport answers. -/
def bindHandlers (c : Controller) : Controller :=
  { c with
    callbacks := c.callbacks ++
      [(objectFrameCode, .handleEntSnapshot), (clientOwnershipCode, .handleEntOwnership)]
    eventCallbacks := c.eventCallbacks ++ [(.disconnect, .stop)] }

def connect (pb : Protobuf) (answer : ConnectAnswer) (c : Controller) : Except String Bool × Controller :=
  match answer with
  | .noPeer => (.error "Client peer failed.", c)
  | .failed _ => (.ok false, c.bindHandlers)
  | .connected peer =>
    let c₁ : Controller := { c.bindHandlers with peerList := c.peerList ++ [peer] }
    (.ok true, { (c₁.fireEvent pb none (.connect peer)).2 with connected := true })

/-! ### Turns -/

inductive Act where
  | start
  | stop
  | listen
  | network (events : List NetEvent)
  | update

/-- A thread that was started and not terminated. -/
def live (t : Option INetworkThread) : Bool := t.any (·.running)

/-- `after` is what `ControllerUpdate` does, the application's part included. -/
def update (after : NetSystem → NetSystem × List Send) (c : Controller) : Controller :=
  if !c.running then c
  else
    let r := c.snapshotUpdate
    let u := after r.1
    { c with toNetSystem := u.1, sends := c.sends ++ (r.2 ++ u.2) }

/-- A thread takes its turn only while it lives and the controller is running. -/
def step (pb : Protobuf) (past : Mem) (after : NetSystem → NetSystem × List Send) (c : Controller) :
    Act → Controller
  | .start => c.start
  | .stop => (c.stop none).2
  | .listen => c.listen
  | .network events =>
    if live c.thread && c.running && !c.failed then (c.processNetStack pb past (some .net) events).2 else c
  | .update => if live c.syncThread && c.running && !c.failed then c.update after else c

end Controller

/-! ## What stays -/

/-- The fields that no frame, list message or snapshot touches. -/
structure NetSystem.Kept (s s' : NetSystem) : Prop where
  running : s'.running = s.running
  peerList : s'.peerList = s.peerList

namespace NetSystem.Kept

variable {s s' s'' : NetSystem}

theorem refl (s : NetSystem) : Kept s s := ⟨rfl, rfl⟩

theorem trans (h : Kept s s') (h' : Kept s' s'') : Kept s s'' :=
  ⟨h'.running.trans h.running, h'.peerList.trans h.peerList⟩

theorem readEntityUpdate (f : Frame) (owner : Option Peer) (s : NetSystem) :
    Kept s (s.readEntityUpdate f owner) := by
  rw [NetSystem.readEntityUpdate]
  cases s.findObject f.netID with
  | none => exact refl s
  | some o =>
    dsimp only
    split_ifs <;> exact ⟨rfl, rfl⟩

theorem actServer (f : Frame) (s : NetSystem) : Kept s (NetSystem.actServer f s).2 := by
  unfold NetSystem.actServer NetSystem.entAllocate NetSystem.entDeallocate
  split_ifs
  · exact readEntityUpdate f none s
  all_goals (repeat' split) <;> exact ⟨rfl, rfl⟩

theorem actClient (peer : Option Peer) (f : Frame) (s : NetSystem) :
    Kept s (NetSystem.actClient peer f s).2 := by
  rw [NetSystem.actClient]
  split_ifs
  · exact readEntityUpdate f peer s
  · exact refl s

theorem runHandler (pb : Protobuf) (data : Mem) (dataLen : ℕ) (peer : Peer) (h : Handler) (s : NetSystem) :
    Kept s (s.runHandler pb data dataLen peer h).2 := by
  cases h with
  | handleClientEntSnapshot =>
    exact handleSnapshot_inv (I := Kept s) (fun f s' hs => hs.trans (actClient (some peer) f s')) data dataLen
      (refl s)
  | handleEntSnapshot =>
    exact handleSnapshot_inv (I := Kept s) (fun f s' hs => hs.trans (actServer f s')) data dataLen (refl s)
  | handleEntOwnership =>
    rw [NetSystem.runHandler, NetSystem.handleEntOwnership]
    split <;> exact refl s
  | onRemoteAdd => exact ⟨rfl, rfl⟩
  | onRemoteUpdate => exact ⟨rfl, rfl⟩
  | onRemoteRemove => exact ⟨rfl, rfl⟩

theorem receive (pb : Protobuf) (past : Mem) (peer : Peer) (packet : Bytes) (s : NetSystem) :
    Kept s (s.receive pb past peer packet).2 := by
  rw [NetSystem.receive, NetSystem.processRecv]
  split_ifs
  · exact refl s
  · exact refl s
  · exact throughout_inv (I := Kept s)
      (fun h s' hs => hs.trans (runHandler pb _ _ peer h s')) _ (refl s)

end NetSystem.Kept

namespace Controller

variable {pb : Protobuf} {past : Mem} {caller : Option Worker} {after : NetSystem → NetSystem × List Send}
  {c c' : Controller} {e : NetEvent}

/-- Handlers that do not stop the controller send something at most. -/
theorem runEventHandlers_quiet (pb : Protobuf) (caller : Option Worker) (e : NetEvent) {hs : List EventHandler}
    (h : .stop ∉ hs) (c : Controller) : ∃ s' sends, c.toNetSystem.Kept s' ∧
      runEventHandlers pb caller e hs c = (true, { c with toNetSystem := s', sends := sends }) := by
  induction hs generalizing c with
  | nil => exact ⟨c.toNetSystem, c.sends, .refl _, rfl⟩
  | cons h₁ hs ih =>
    obtain ⟨hne, hrest⟩ := not_or.mp (List.mem_cons.not.mp h)
    obtain ⟨s₁, sends₁, hkept₁, hrun₁⟩ : ∃ s' sends, c.toNetSystem.Kept s' ∧
        c.runEventHandler pb caller e h₁ = (true, { c with toNetSystem := s', sends := sends }) := by
      cases h₁ with
      | stop => exact absurd rfl hne
      | application => exact ⟨c.toNetSystem, c.sends, .refl _, rfl⟩
      | sendWorld =>
        cases e with
        | connect peer => exact ⟨(c.connectHandler pb peer).1, _, ⟨rfl, rfl⟩, rfl⟩
        | disconnect peer => exact ⟨c.toNetSystem, c.sends, .refl _, rfl⟩
        | receive peer packet => exact ⟨c.toNetSystem, c.sends, .refl _, rfl⟩
    obtain ⟨s₂, sends₂, hkept₂, hrun₂⟩ := ih hrest { c with toNetSystem := s₁, sends := sends₁ }
    refine ⟨s₂, sends₂, hkept₁.trans hkept₂, ?_⟩
    rw [runEventHandlers, hrun₁]
    exact hrun₂

/-- What an event does to the list of peers. -/
def follow (peers : List Peer) : NetEvent → List Peer
  | .connect peer => peers ++ [peer]
  | .disconnect peer => peers.erase peer
  | .receive _ _ => peers

/-- An event that did not stop the controller. -/
structure Serviced (e : NetEvent) (c c' : Controller) : Prop where
  running : c'.running = c.running
  peerList : c'.peerList = follow c.peerList e
  serviced : c'.serviced = c.serviced ++ [e]
  thread : c'.thread = c.thread
  shuttingDown : c'.shuttingDown = c.shuttingDown
  host : c'.host = c.host
  eventCallbacks : c'.eventCallbacks = c.eventCallbacks
  disconnects : c'.disconnects = c.disconnects

theorem serviced_processEvent (pb : Protobuf) (past : Mem) (caller : Option Worker)
    (h : .stop ∉ c.handlersOf e.type) : Serviced e c (c.processEvent pb past caller e).2 := by
  obtain ⟨s', sends, hkept, hfire⟩ : ∃ s' sends, c.toNetSystem.Kept s' ∧
      fireEvent pb caller e { c with serviced := c.serviced ++ [e] } =
        (true, { c with toNetSystem := s', sends := sends, serviced := c.serviced ++ [e] }) := by
    rw [fireEvent]
    split_ifs
    · exact ⟨c.toNetSystem, c.sends, .refl _, rfl⟩
    · exact runEventHandlers_quiet pb caller e h { c with serviced := c.serviced ++ [e] }
  unfold processEvent
  rw [hfire]
  cases e with
  | connect peer =>
    exact ⟨hkept.running, congrArg (· ++ [peer]) hkept.peerList, rfl, rfl, rfl, rfl, rfl, rfl⟩
  | disconnect peer =>
    exact ⟨hkept.running, congrArg (List.erase · peer) hkept.peerList, rfl, rfl, rfl, rfl, rfl, rfl⟩
  | receive peer packet =>
    have hreceive := NetSystem.Kept.receive pb past peer packet s'
    exact ⟨hreceive.running.trans hkept.running, hreceive.peerList.trans hkept.peerList, rfl, rfl, rfl, rfl,
      rfl, rfl⟩

/-- What every event of a call preserves, the call preserves. -/
theorem processNetStack_inv {I : Controller → Prop}
    (hevent : ∀ c e, I c → c.host = true → c.running = true → I (c.processEvent pb past caller e).2)
    (events : List NetEvent) (h : I c) : I (c.processNetStack pb past caller events).2 := by
  induction events generalizing c with
  | nil => exact h
  | cons e events ih =>
    rw [processNetStack]
    split_ifs with hgo
    · obtain ⟨hhost, hrun⟩ := Bool.and_eq_true_iff.mp hgo
      have hnext := hevent c e h hhost hrun
      dsimp only
      split_ifs
      · exact ih hnext
      · exact hnext
    · exact h

/-! ## The peers of a server -/

/-- What the rest of a tick does leaves the peers alone. -/
def KeepsPeers (after : NetSystem → NetSystem × List Send) : Prop := ∀ s : NetSystem, s.Kept (after s).1

/-- No peer connects again before it disconnected. -/
def Separate (on : Peer → Bool) : List NetEvent → Prop
  | [] => True
  | .connect p :: es => on p = false ∧ Separate (Function.update on p true) es
  | .disconnect p :: es => Separate (Function.update on p false) es
  | .receive _ _ :: es => Separate on es

instance : ∀ on es, Decidable (Separate on es)
  | _, [] => isTrue trivial
  | on, .connect p :: es =>
    have := instDecidableSeparate (Function.update on p true) es
    inferInstanceAs (Decidable (on p = false ∧ _))
  | on, .disconnect p :: es => instDecidableSeparate (Function.update on p false) es
  | on, .receive _ _ :: es => instDecidableSeparate on es

/-- The peers whose last connection was not followed by a disconnect. -/
def stillConnected : List NetEvent → List Peer
  | [] => []
  | .connect p :: es => if .disconnect p ∈ es then stillConnected es else p :: stillConnected es
  | .disconnect _ :: es | .receive _ _ :: es => stillConnected es

/-- The list of peers after some events. -/
theorem foldl_follow {peers : List Peer} {on : Peer → Bool} (hon : ∀ p, on p = true ↔ p ∈ peers)
    (hnodup : peers.Nodup) {es : List NetEvent} (h : Separate on es) :
    es.foldl follow peers = (peers.filter fun p => !decide (.disconnect p ∈ es)) ++ stillConnected es ∧
      (es.foldl follow peers).Nodup := by
  induction es generalizing peers on with
  | nil => simpa [stillConnected] using hnodup
  | cons e es ih =>
    cases e with
    | connect p =>
      obtain ⟨hoff, hrest⟩ := h
      have hnot : p ∉ peers := fun hp => Bool.false_ne_true (hoff.symm.trans ((hon p).mpr hp))
      have hon' : ∀ q, Function.update on p true q = true ↔ q ∈ peers ++ [p] := by
        intro q
        by_cases hq : q = p
        · simp [hq]
        · simp [hon, hq]
      have hnodup' : (peers ++ [p]).Nodup := List.nodup_append_comm.mp (List.nodup_cons.mpr ⟨hnot, hnodup⟩)
      obtain ⟨hfold, hfoldnodup⟩ := ih hon' hnodup' hrest
      refine ⟨?_, hfoldnodup⟩
      rw [List.foldl_cons, follow, hfold, List.filter_append, List.append_assoc, stillConnected]
      by_cases hd : NetEvent.disconnect p ∈ es <;> simp [hd]
    | disconnect p =>
      have hon' : ∀ q, Function.update on p false q = true ↔ q ∈ peers.erase p := by
        intro q
        rw [hnodup.mem_erase_iff]
        by_cases hq : q = p
        · simp [hq]
        · simp [hon, hq]
      obtain ⟨hfold, hfoldnodup⟩ := ih hon' (hnodup.erase p) h
      refine ⟨?_, hfoldnodup⟩
      rw [List.foldl_cons, follow, hfold, stillConnected, hnodup.erase_eq_filter, List.filter_filter]
      refine congrArg (· ++ stillConnected es) (List.filter_congr fun q _ => ?_)
      by_cases hq : q = p <;> simp [hq]
    | receive p packet =>
      obtain ⟨hfold, hfoldnodup⟩ := ih hon hnodup h
      refine ⟨?_, hfoldnodup⟩
      rw [List.foldl_cons, follow, hfold, stillConnected]
      simp

/-- No handler stops the controller, and the list of peers is what the events made of it. -/
structure Tracks (c : Controller) : Prop where
  quiet : ∀ type, .stop ∉ c.handlersOf type
  peerList : c.peerList = c.serviced.foldl follow []

theorem Tracks.processEvent (h : c.Tracks) (pb : Protobuf) (past : Mem) (caller : Option Worker)
    (e : NetEvent) : (c.processEvent pb past caller e).2.Tracks := by
  have hs := serviced_processEvent pb past caller (e := e) (h.quiet e.type)
  refine ⟨fun type => ?_, ?_⟩
  · rw [handlersOf, hs.eventCallbacks]
    exact h.quiet type
  · rw [hs.peerList, hs.serviced, List.foldl_append, ← h.peerList]
    rfl

theorem Tracks.step (h : c.Tracks) (hafter : KeepsPeers after) {a : Act} (ha : a ≠ .stop) :
    (c.step pb past after a).Tracks := by
  cases a with
  | start => exact ⟨h.quiet, h.peerList⟩
  | stop => exact absurd rfl ha
  | listen =>
    refine ⟨fun type => ?_, h.peerList⟩
    show EventHandler.stop ∉ (c.eventCallbacks ++ [(EventType.connect, EventHandler.sendWorld)]).filterMap _
    rw [List.filterMap_append, List.mem_append, not_or]
    refine ⟨h.quiet type, ?_⟩
    cases type <;> simp
  | network events =>
    rw [Controller.step]
    split_ifs
    · exact processNetStack_inv (fun c e hc _ _ => hc.processEvent pb past _ e) events h
    · exact h
  | update =>
    rw [Controller.step]
    split_ifs
    · rw [Controller.update]
      split_ifs
      · exact h
      · exact ⟨h.quiet, (hafter _).peerList.trans h.peerList⟩
    · exact h

/-- **The peers of a server** that its application does not stop are those that are connected, in the
order in which they connected. -/
theorem peers_connected (pb : Protobuf) (past : Mem) (hafter : KeepsPeers after) (hc : c.Tracks)
    {acts : List Act} (hacts : ∀ a ∈ acts, a ≠ .stop)
    (hseparate : Separate (fun _ => false) (run (step pb past after) c acts).serviced) :
    (run (step pb past after) c acts).peerList = stillConnected (run (step pb past after) c acts).serviced ∧
      (run (step pb past after) c acts).peerList.Nodup := by
  have hrun : (run (step pb past after) c acts).Tracks :=
    run_inv (I := Tracks) (fun c a h ha => h.step hafter ha) hc (along_of_forall hacts c)
  have hnobody : ∀ p : Peer, (fun _ => false : Peer → Bool) p = true ↔ p ∈ [] := by simp
  obtain ⟨hfold, hnodup⟩ := foldl_follow hnobody List.nodup_nil hseparate
  rw [hrun.peerList]
  exact ⟨hfold, hnodup⟩

/-- A server as its constructor leaves it. -/
def newServer : Controller where
  server := true
  running := false
  callbacks := serverCallbacks

/-- Two peers come, the first one goes and comes back, and the second one sends a broken packet. -/
def visits : List Act :=
  [.listen, .start, .network [.connect 5, .connect 6], .update, .network [.disconnect 5, .connect 5],
    .network [.receive 6 [1]], .update]

theorem newServer_tracks : newServer.Tracks where
  quiet := by simp [handlersOf, newServer]
  peerList := rfl

theorem peers_connected_visits :
    (run (step Protobuf.wire Mem.zero fun s => (s, [])) newServer visits).peerList =
        stillConnected (run (step Protobuf.wire Mem.zero fun s => (s, [])) newServer visits).serviced ∧
      (run (step Protobuf.wire Mem.zero fun s => (s, [])) newServer visits).peerList.Nodup :=
  peers_connected Protobuf.wire Mem.zero (fun s => .refl s) newServer_tracks (by simp [visits])
    (by decide +kernel)

/-! ## After a stop -/

/-- Nothing is left to run. -/
structure Stopped (c₀ c : Controller) : Prop where
  thread : c.thread = none
  syncThread : c.syncThread = none
  peerList : c.peerList = []
  instances : c.instances = c₀.instances
  sends : c.sends = c₀.sends
  serviced : c.serviced = c₀.serviced
  disconnects : c.disconnects = c₀.disconnects ++ c₀.peerList

theorem stop_none (hrun : c.running = true) : c.stop none = (true, { c with
    thread := none
    syncThread := none
    running := false
    connected := false
    disconnects := c.disconnects ++ c.peerList
    peerList := []
    host := false
    shuttingDown := false }) := by
  simp [stop, ends, hrun]

theorem Stopped.step {c₀ : Controller} (h : Stopped c₀ c) (pb : Protobuf) (past : Mem)
    (after : NetSystem → NetSystem × List Send) (a : Act) : Stopped c₀ (c.step pb past after a) := by
  cases a with
  | start =>
    refine ⟨?_, ?_, h.peerList, h.instances, h.sends, h.serviced, h.disconnects⟩
    · show c.thread.map _ = none
      rw [h.thread]
      rfl
    · show c.syncThread.map _ = none
      rw [h.syncThread]
      rfl
  | stop =>
    by_cases hrun : c.running = true
    · rw [Controller.step, stop_none hrun]
      refine ⟨rfl, rfl, rfl, h.instances, h.sends, h.serviced, ?_⟩
      show c.disconnects ++ c.peerList = _
      rw [h.peerList, List.append_nil, h.disconnects]
    · have hstop : c.stop none = (true, c) := by simp [stop, hrun]
      rw [Controller.step, hstop]
      exact h
  | listen => exact ⟨h.thread, h.syncThread, h.peerList, h.instances, h.sends, h.serviced, h.disconnects⟩
  | network events =>
    rw [Controller.step, h.thread]
    exact h
  | update =>
    rw [Controller.step, h.syncThread]
    exact h

/-- **A stopped controller is silent.** A stop by the application disconnects each peer in the list once;
after it nothing is sent and no event is handled, whatever turns the threads take and however often the
application stops, listens and starts. -/
theorem stopped_silent (pb : Protobuf) (past : Mem) (after : NetSystem → NetSystem × List Send)
    (hrun : c.running = true) (acts : List Act) :
    Stopped c (run (step pb past after) (c.step pb past after .stop) acts) := by
  refine run_inv (I := Stopped c) (fun c' a h _ => h.step pb past after a) ?_
    (along_of_forall (fun _ _ => trivial) _)
  rw [Controller.step, stop_none hrun]
  exact ⟨rfl, rfl, rfl, rfl, rfl, rfl, rfl⟩

theorem stopped_silent_visits :
    Stopped (run (step Protobuf.wire Mem.zero fun s => (s, [])) newServer visits)
      (run (step Protobuf.wire Mem.zero fun s => (s, []))
        ((run (step Protobuf.wire Mem.zero fun s => (s, [])) newServer visits).step Protobuf.wire Mem.zero
          (fun s => (s, [])) .stop)
        [.listen, .start, .network [.connect 7], .update]) :=
  stopped_silent Protobuf.wire Mem.zero _
    (by decide +kernel) _

/-! ## A client without its server -/

/-- A running client whose first peer is `host`; `Connect` bound `Stop` to disconnects. -/
structure Attached (host : Peer) (c : Controller) : Prop where
  running : c.running = true
  first : c.getFirstPeer = some host
  bound : .stop ∈ c.handlersOf .disconnect
  only : ∀ type, .stop ∈ c.handlersOf type → type = .disconnect

/-- Its network thread lives, and no disconnect was handed out so far. -/
structure Hearing (host : Peer) (c : Controller) : Prop extends Attached host c where
  thread : c.thread = some ⟨true, true⟩
  quiet : ∀ p, .disconnect p ∉ c.serviced

/-- Its network thread is gone, in the middle of `Stop`; the last event was the first disconnect. -/
structure Lost (host : Peer) (c : Controller) : Prop extends Attached host c where
  thread : c.thread = some ⟨true, false⟩
  shuttingDown : c.shuttingDown = true
  last : ∃ heard p, c.serviced = heard ++ [.disconnect p] ∧ ∀ q, .disconnect q ∉ heard

variable {host : Peer}

/-- A handler that stops the controller ends the network thread that runs it. -/
theorem runEventHandlers_stop (pb : Protobuf) (p : Peer) {hs : List EventHandler} (h : .stop ∈ hs)
    (hrun : c.running = true) (hthread : c.thread = some ⟨true, true⟩) :
    runEventHandlers pb (some .net) (.disconnect p) hs c =
      (false, { c with shuttingDown := true, thread := some ⟨true, false⟩ }) := by
  induction hs with
  | nil => exact absurd h List.not_mem_nil
  | cons h₁ hs ih =>
    rw [runEventHandlers]
    cases h₁ with
    | stop => simp [runEventHandler, stop, ends, ended, hrun, hthread, INetworkThread.terminates]
    | sendWorld => exact ih ((List.mem_cons.mp h).resolve_left nofun)
    | application => exact ih ((List.mem_cons.mp h).resolve_left nofun)

theorem head?_follow {peers : List Peer} (hfirst : peers.head? = some host) {e : NetEvent}
    (he : e.type ≠ .disconnect) : (follow peers e).head? = some host := by
  cases e with
  | connect p => rw [follow, List.head?_append, hfirst, Option.some_or]
  | disconnect p => exact absurd rfl he
  | receive p packet => exact hfirst

/-- **An event**: a disconnect ends the thread, anything else is serviced. -/
theorem Hearing.processEvent (h : c.Hearing host) (pb : Protobuf) (past : Mem) (e : NetEvent) :
    (c.processEvent pb past (some .net) e).2.Hearing host ∨
      ((c.processEvent pb past (some .net) e).1 = false ∧
        (c.processEvent pb past (some .net) e).2.Lost host) := by
  by_cases he : e.type = .disconnect
  · obtain ⟨p, rfl⟩ : ∃ p, e = .disconnect p := by
      cases e with
      | disconnect p => exact ⟨p, rfl⟩
      | connect p => exact absurd he nofun
      | receive p packet => exact absurd he nofun
    have hfire : fireEvent pb (some .net) (.disconnect p) { c with serviced := c.serviced ++ [.disconnect p] } =
        (false, { c with
          serviced := c.serviced ++ [.disconnect p], shuttingDown := true, thread := some ⟨true, false⟩ }) := by
      rw [fireEvent, if_neg (by simp [h.running])]
      exact runEventHandlers_stop pb p h.bound h.running h.thread
    right
    unfold Controller.processEvent
    rw [hfire]
    exact ⟨rfl, ⟨h.running, h.first, h.bound, h.only⟩, rfl, rfl, c.serviced, p, rfl, h.quiet⟩
  · have hs := serviced_processEvent pb past (some .net) fun hstop => he (h.only e.type hstop)
    left
    refine ⟨⟨hs.running.trans h.running, ?_, ?_, fun type ht => ?_⟩, hs.thread.trans h.thread, fun p hp => ?_⟩
    · rw [NetSystem.getFirstPeer, hs.peerList]
      exact head?_follow h.first he
    · rw [handlersOf, hs.eventCallbacks]
      exact h.bound
    · rw [handlersOf, hs.eventCallbacks] at ht
      exact h.only type ht
    · rw [hs.serviced, List.mem_append, List.mem_singleton] at hp
      exact hp.elim (h.quiet p) fun hp => he (by rw [← hp]; rfl)

theorem Hearing.processNetStack (h : c.Hearing host) (pb : Protobuf) (past : Mem) (events : List NetEvent) :
    (c.processNetStack pb past (some .net) events).2.Hearing host ∨
      (c.processNetStack pb past (some .net) events).2.Lost host := by
  induction events generalizing c with
  | nil => exact Or.inl h
  | cons e events ih =>
    rw [Controller.processNetStack]
    split_ifs
    · rcases h.processEvent pb past e with hnext | ⟨hended, hlost⟩
      · dsimp only
        split_ifs
        · exact ih hnext
        · exact Or.inl hnext
      · simp only [hended, Bool.false_eq_true, if_false]
        exact Or.inr hlost
    · exact Or.inl h

theorem Attached.listen (h : c.Attached host) : c.listen.Attached host := by
  have hhandlers : ∀ type, EventHandler.stop ∈ c.listen.handlersOf type ↔ .stop ∈ c.handlersOf type := by
    intro type
    show EventHandler.stop ∈ (c.eventCallbacks ++ [(EventType.connect, EventHandler.sendWorld)]).filterMap _ ↔ _
    rw [List.filterMap_append, List.mem_append, or_iff_left]
    · rfl
    · cases type <;> simp
  exact ⟨h.running, h.first, (hhandlers _).mpr h.bound, fun type ht => h.only type ((hhandlers type).mp ht)⟩

theorem Attached.update (h : c.Attached host) (hafter : KeepsPeers after) : (c.update after).Attached host := by
  rw [Controller.update]
  split_ifs
  · exact h
  · have hkept := hafter c.snapshotUpdate.1
    exact ⟨hkept.running.trans h.running, (congrArg List.head? hkept.peerList).trans h.first, h.bound, h.only⟩

theorem update_thread (after : NetSystem → NetSystem × List Send) (c : Controller) :
    (c.update after).thread = c.thread ∧ (c.update after).shuttingDown = c.shuttingDown ∧
      (c.update after).serviced = c.serviced := by
  rw [Controller.update]
  split_ifs <;> exact ⟨rfl, rfl, rfl⟩

theorem Hearing.step (h : c.Hearing host) (hafter : KeepsPeers after) {a : Act} (ha : a ≠ .stop) :
    (c.step pb past after a).Hearing host ∨ (c.step pb past after a).Lost host := by
  cases a with
  | start =>
    refine Or.inl ⟨⟨rfl, h.first, h.bound, h.only⟩, ?_, h.quiet⟩
    show c.thread.map _ = _
    rw [h.thread]
    rfl
  | stop => exact absurd rfl ha
  | listen => exact Or.inl ⟨h.toAttached.listen, h.thread, h.quiet⟩
  | network events =>
    rw [Controller.step]
    split_ifs
    · exact h.processNetStack pb past events
    · exact Or.inl h
  | update =>
    rw [Controller.step]
    split_ifs
    · obtain ⟨hthread, -, hserviced⟩ := update_thread after c
      refine Or.inl ⟨h.toAttached.update hafter, hthread.trans h.thread, ?_⟩
      rw [hserviced]
      exact h.quiet
    · exact Or.inl h

theorem Lost.step (h : c.Lost host) (hafter : KeepsPeers after) {a : Act} (ha : a ≠ .stop) :
    (c.step pb past after a).Lost host := by
  cases a with
  | start =>
    refine ⟨⟨rfl, h.first, h.bound, h.only⟩, ?_, h.shuttingDown, h.last⟩
    show c.thread.map _ = _
    rw [h.thread]
    rfl
  | stop => exact absurd rfl ha
  | listen => exact ⟨h.toAttached.listen, h.thread, h.shuttingDown, h.last⟩
  | network events =>
    rw [Controller.step, h.thread]
    exact h
  | update =>
    rw [Controller.step]
    split_ifs
    · obtain ⟨hthread, hshutting, hserviced⟩ := update_thread after c
      refine ⟨h.toAttached.update hafter, hthread.trans h.thread, hshutting.trans h.shuttingDown, ?_⟩
      rw [hserviced]
      exact h.last
    · exact h

/-- **A client that loses its server goes on running.** The handler of the disconnect ends the network
thread in the middle of `Stop`: no event is ever handled again, the flags say that the client runs and
is shutting down, and it goes on sending to the peer that is gone. A stop by the application completes. -/
theorem lost_lingers (pb : Protobuf) (past : Mem) (hafter : KeepsPeers after) (h : c.Hearing host)
    {acts : List Act} (hacts : ∀ a ∈ acts, a ≠ .stop) {p : Peer}
    (hp : .disconnect p ∈ (run (step pb past after) c acts).serviced) :
    (run (step pb past after) c acts).Lost host ∧
      ((run (step pb past after) c acts).stop none).1 = true ∧
      ((run (step pb past after) c acts).stop none).2.running = false := by
  have hrun : (run (step pb past after) c acts).Hearing host ∨ (run (step pb past after) c acts).Lost host :=
    run_inv (I := fun c : Controller => c.Hearing host ∨ c.Lost host)
      (fun c a hc ha => hc.elim (fun h => h.step hafter ha) fun h => Or.inr (h.step hafter ha)) (Or.inl h)
      (along_of_forall hacts c)
  have hlost := hrun.resolve_left fun h => h.quiet p hp
  rw [stop_none hlost.running]
  exact ⟨hlost, rfl, rfl⟩

/-- A client that connected and was started. -/
def newClient : Controller :=
  (connect Protobuf.wire (.connected 0)
    { server := false, running := false, callbacks := listCallbacks, host := true }).2.start

theorem newClient_hearing : newClient.Hearing 0 where
  running := rfl
  first := rfl
  bound := by decide
  only := by rintro (_ | _ | _) h <;> first | rfl | exact absurd h (by decide)
  thread := rfl
  quiet := by simp [newClient, connect, start, fireEvent, bindHandlers]

theorem lost_lingers_newClient :
    (run (step Protobuf.wire Mem.zero fun s => (s, [])) newClient
      [.network [.disconnect 0, .connect 0], .start, .network [.connect 0]]).Lost 0 ∧
      ((run (step Protobuf.wire Mem.zero fun s => (s, [])) newClient
        [.network [.disconnect 0, .connect 0], .start, .network [.connect 0]]).stop none).1 = true ∧
      ((run (step Protobuf.wire Mem.zero fun s => (s, [])) newClient
        [.network [.disconnect 0, .connect 0], .start, .network [.connect 0]]).stop none).2.running = false :=
  lost_lingers Protobuf.wire Mem.zero (fun s => .refl s) newClient_hearing (by simp) (p := 0)
    (by decide +kernel)

end Controller

end Nettik
