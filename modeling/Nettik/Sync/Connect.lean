import Nettik.Sync.Buffered
import Nettik.Sync.Numbers
import Nettik.World.Framing
import Nettik.World.Mirror
import Nettik.World.Order

/-!
# Connecting more than once

`Connect` binds the handlers of a client, whether or not a connection comes of it.

* `connect`, `connects`: one call, and a list of calls;
* `deliver`: what the handlers bound to snapshots do with frames, one after the other;
  **`receive_deliver`**: what they do to a client, **`findVar_deliver`** to one of its variables;
* **`handledOnce_iff`**: when a snapshot is handled once.
-/

namespace Nettik

open ByteMem Loops

/-! ## Clients -/

structure NetSystemClient extends NetSystem where
  connected : Bool := false

/-- What the transport answers to a call: it has no peer, or a peer that does not connect within ten
seconds, or one that does. -/
inductive ConnectAnswer where
  | noPeer
  | failed (peer : Peer)
  | connected (peer : Peer)
  deriving DecidableEq, Repr

def ConnectAnswer.hasPeer : ConnectAnswer → Bool
  | .noPeer => false
  | .failed _ | .connected _ => true

def ConnectAnswer.connects : ConnectAnswer → Bool
  | .connected _ => true
  | .noPeer | .failed _ => false

namespace NetSystemClient

/-- The two calls of `on`. -/
def bindHandlers (c : NetSystemClient) : NetSystemClient :=
  { c with callbacks := c.callbacks ++
      [(objectFrameCode, .handleEntSnapshot), (clientOwnershipCode, .handleEntOwnership)] }

/-- `Stop` is bound to disconnects as well. -/
def connect (answer : ConnectAnswer) (c : NetSystemClient) : Except String Bool × NetSystemClient :=
  match answer with
  | .noPeer => (.error "Client peer failed.", c)
  | .failed _ => (.ok false, c.bindHandlers)
  | .connected peer =>
    (.ok true, { c.bindHandlers with peerList := c.peerList ++ [peer], connected := true })

def connects (answers : List ConnectAnswer) (c : NetSystemClient) : NetSystemClient :=
  answers.foldl (fun c answer => (c.connect answer).2) c

/-- What the constructor leaves: `bind_controller` ran. -/
structure Constructed (c : NetSystemClient) : Prop where
  callbacks : c.callbacks = listCallbacks
  connected : c.connected = false

/-- Every handler that is bound to snapshots runs through the frames. -/
def deliver {U V : Type} (read : V → U → V) (us : List U) (c : NetSystemClient) : V → V :=
  (fun v => us.foldl read v)^[(bound objectFrameCode c.callbacks).count .handleEntSnapshot]

end NetSystemClient

/-! ## Variables -/

/-- The variable a data frame reaches, with the controller of its object. -/
def NetSystem.findVar (address : UInt32 × Bytes) (s : NetSystem) : Option (UInt32 × NetVar) :=
  (s.findObject address.1).bind fun o =>
    (o.vars.find? (·.name.1 == address.2)).map fun v => (o.controller, v)

/-- A frame is accepted, and the variable is not locked. -/
def CNetVarBase.takes {α : Type} (controller : UInt32) (v : CNetVarBase α) (u : Update α) : Bool :=
  v.accepts controller u && !v.locked

def NetVar.takes (controller : UInt32) (v : NetVar) (f : Frame) : Bool :=
  v.base.takes controller (v.received f)

/-- `ReadEntityUpdate`, for a vector. -/
def CNetVarBufferedVector.readUpdate (controller : UInt32) (networkRate : ℕ)
    (v : CNetVarBufferedVector) (u : Update (CVector3 ℚ)) : CNetVarBufferedVector :=
  if controller = netControllerLocal ∧ u.forced = false then v
  else if v.checkSequence u.sequence then
    { v with sequenceID := u.sequence }.setRaw (controller == netControllerLocal) networkRate u.data
  else v

theorem CNetVarBase.changes_readUpdate {α : Type} (controller : UInt32) (v : CNetVarBase α)
    (u : Update α) : (v.readUpdate controller u).changes =
      if v.takes controller u then v.changes + 1 else v.changes := by
  rw [readUpdate_eq, takes, setRaw]
  cases v.accepts controller u
  · rfl
  · cases hl : v.locked <;> simp [setSequence, hl]

namespace CNetVarBufferedVector

theorem readUpdate_eq (controller : UInt32) (networkRate : ℕ) (v : CNetVarBufferedVector)
    (u : Update (CVector3 ℚ)) : v.readUpdate controller networkRate u =
      if v.accepts controller u then
        { v with sequenceID := u.sequence }.setRaw (controller == netControllerLocal) networkRate u.data
      else v :=
  CNetVarBase.ite_accepts controller u v.toCNetVarBase _ _

theorem changes_setRaw (isLocal : Bool) (networkRate : ℕ) (point : CVector3 ℚ)
    (v : CNetVarBufferedVector) : (v.setRaw isLocal networkRate point).changes =
      if v.locked then v.changes else v.changes + 1 := by
  cases hl : v.locked with
  | true => rw [setRaw_of_locked hl, if_pos rfl]
  | false =>
    cases isLocal with
    | true => simp [setRaw, hl, counted]
    | false =>
      rw [setRaw_of_unlocked hl]
      rfl

theorem changes_readUpdate (controller : UInt32) (networkRate : ℕ) (v : CNetVarBufferedVector)
    (u : Update (CVector3 ℚ)) : (v.readUpdate controller networkRate u).changes =
      if v.takes controller u then v.changes + 1 else v.changes := by
  rw [readUpdate_eq, CNetVarBase.takes]
  cases v.accepts controller u
  · rfl
  · cases v.locked <;> simp [changes_setRaw]

/-- The slot of a vector whose object is not `LOCAL`. -/
theorem index_readUpdate {controller : UInt32} (hc : controller ≠ netControllerLocal) (networkRate : ℕ)
    (v : CNetVarBufferedVector) (u : Update (CVector3 ℚ)) :
    (v.readUpdate controller networkRate u).activePositionIndex =
      if v.takes controller u then v.activePositionIndex + 1 else v.activePositionIndex := by
  rw [readUpdate_eq, CNetVarBase.takes, beq_false_of_ne hc]
  cases v.accepts controller u
  · rfl
  · cases v.locked with
    | true => simp [setRaw_of_locked]
    | false => simp [setRaw_of_unlocked]

end CNetVarBufferedVector

/-! ## What a packet does -/

section

variable {c : NetSystemClient} {fs : List Frame}

theorem throughout_dataFrames (hdata : ∀ f ∈ fs, f.frameType = kFrameData) (s : NetSystem) :
    throughout NetSystem.actServer fs s =
      (.ok (), fs.foldl (fun s f => s.readEntityUpdate f none) s) :=
  throughout_ok (fun f hf s => by rw [NetSystem.actServer, if_pos (hdata f hf)]) s

/-- **A packet of data frames is delivered.** -/
theorem receive_deliver (hrun : c.running = true)
    (hbound : ∀ h ∈ bound objectFrameCode c.callbacks, h = .handleEntSnapshot) (pb : Protobuf)
    (past : Mem) (server : Peer) (sequence : UInt32) (hlen : fs.length < 65536)
    (hfit : ∀ f ∈ fs, f.Fits) (hdata : ∀ f ∈ fs, f.frameType = kFrameData) :
    c.receive pb past server (packetOf sequence fs) = (.ok (),
      c.deliver (fun s f => s.readEntityUpdate f none) (fs.map Frame.extended) c.toNetSystem) := by
  have hread : ∀ s, NetSystem.runHandler pb (Mem.ofList (packetOf sequence fs) past)
      (packetOf sequence fs).length server .handleEntSnapshot s =
        (.ok (), (fs.map Frame.extended).foldl (fun s f => s.readEntityUpdate f none) s) := by
    intro s
    show handleSnapshot NetSystem.actServer _ _ s = _
    rw [handleSnapshot_packetOf _ sequence hlen hfit]
    refine throughout_dataFrames (fun f hf => ?_) s
    obtain ⟨g, hg, rfl⟩ := List.mem_map.mp hf
    exact hdata g hg
  have hall := List.eq_replicate_of_mem hbound
  rw [receive_packetOf_eq pb past server hrun sequence hfit, NetSystemClient.deliver]
  show throughout _ (bound objectFrameCode c.callbacks) _ = _
  rw [hall, List.count_replicate_self, throughout_ok
    (f := fun s _ => (fs.map Frame.extended).foldl (fun s f => s.readEntityUpdate f none) s)
    fun h hh s => by rw [List.eq_of_mem_replicate hh, hread]]
  rw [List.foldl_const, List.length_replicate]

theorem NetSystem.findVar_readEntityUpdate (address : UInt32 × Bytes) (f : Frame) (s : NetSystem) :
    (s.readEntityUpdate f none).findVar address = (s.findVar address).map fun x =>
      (x.1, if f.variable = address then x.2.readUpdate x.1 f else x.2) := by
  obtain ⟨netID, name⟩ := address
  rw [readEntityUpdate_none, findVar, findVar, findObject_modifyObject_ite fun _ => by rfl]
  cases s.findObject netID with
  | none => rfl
  | some o =>
    simp only [Option.map_some, Option.bind_some, Option.map_map]
    by_cases hid : f.netID = netID
    · by_cases hname : f.name = name
      · have hvar : f.variable = (netID, name) := Prod.ext hid hname
        rw [if_pos hid, NetObject.readUpdate, hname]
        simp only [if_pos hvar]
        rw [find?_modifyFirst_self fun v => by rfl, Option.map_map]
        rfl
      · have hvar : f.variable ≠ (netID, name) := fun h => hname (congrArg Prod.snd h)
        rw [if_pos hid, NetObject.readUpdate]
        simp only [if_neg hvar]
        rw [find?_modifyFirst_of_disjoint (fun v => by rfl) fun v hv => ?_]
        · rfl
        · rw [beq_eq_false_iff_ne, beq_iff_eq.mp hv]
          exact hname
    · have hvar : f.variable ≠ (netID, name) := fun h => hid (congrArg Prod.fst h)
      simp only [if_neg hid, if_neg hvar]
      rfl

/-- The frames for a variable, in the order of the packet. -/
theorem NetSystem.findVar_foldl (address : UInt32 × Bytes) (fs : List Frame) (s : NetSystem) :
    (fs.foldl (fun s f => s.readEntityUpdate f none) s).findVar address =
      (s.findVar address).map fun x =>
        (x.1, (fs.filter (·.variable = address)).foldl (fun v f => NetVar.readUpdate x.1 f v) x.2) := by
  induction fs generalizing s with
  | nil => simp
  | cons f fs ih =>
    rw [List.foldl_cons, ih, findVar_readEntityUpdate, Option.map_map]
    by_cases hf : f.variable = address
    · simp only [hf, List.filter_cons, decide_true, if_true, List.foldl_cons]
      rfl
    · simp only [hf, List.filter_cons, decide_false, Bool.false_eq_true, if_false]
      rfl

/-- **What a delivery does to a variable**: its own frames are delivered to it. -/
theorem findVar_deliver (address : UInt32 × Bytes) (fs : List Frame) (s : NetSystem) :
    (c.deliver (fun s f => s.readEntityUpdate f none) fs s).findVar address =
      (s.findVar address).map fun x => (x.1, c.deliver (fun v f => NetVar.readUpdate x.1 f v)
        (fs.filter (·.variable = address)) x.2) := by
  rw [NetSystemClient.deliver]
  simp only [NetSystemClient.deliver]
  induction (bound objectFrameCode c.callbacks).count .handleEntSnapshot generalizing s with
  | zero => simp
  | succ k ih =>
    simp only [Function.iterate_succ_apply]
    rw [ih, NetSystem.findVar_foldl, Option.map_map]
    rfl

end

/-! ## Handled once -/

/-- **The law of handling.** Every snapshot packet goes to `HandleEntSnapshot` once; every frame that a
variable takes raises its changes by one, and moves a vector of a remote object by one slot. -/
structure HandledOnce (c : NetSystemClient) : Prop where
  handled : ∀ (past : Mem) (packet : Bytes), 2 ≤ packet.length → codeOf packet = objectFrameCode →
    invoked c.callbacks (Mem.ofList packet past) packet.length = .ok [.handleEntSnapshot]
  counts : ∀ (controller : UInt32) (fs : List Frame) (v : NetVar),
    (c.deliver (fun v f => NetVar.readUpdate controller f v) fs v).base.changes = (· + 1)^[tally
      (NetVar.takes controller) (fun v f => NetVar.readUpdate controller f v) fs v] v.base.changes
  vectors : ∀ (controller : UInt32) (networkRate : ℕ) (us : List (Update (CVector3 ℚ)))
    (v : CNetVarBufferedVector),
    (c.deliver (CNetVarBufferedVector.readUpdate controller networkRate) us v).changes =
      (· + 1)^[tally (fun v u => v.takes controller u)
        (CNetVarBufferedVector.readUpdate controller networkRate) us v] v.changes
  slots : ∀ (controller : UInt32), controller ≠ netControllerLocal → ∀ (networkRate : ℕ)
    (us : List (Update (CVector3 ℚ))) (v : CNetVarBufferedVector),
    (c.deliver (CNetVarBufferedVector.readUpdate controller networkRate) us v).activePositionIndex =
      (· + 1)^[tally (fun v u => v.takes controller u)
        (CNetVarBufferedVector.readUpdate controller networkRate) us v] v.activePositionIndex

variable {c : NetSystemClient}

/-- **Handled once is bound once.** -/
theorem handledOnce_iff_bound :
    HandledOnce c ↔ bound objectFrameCode c.callbacks = [.handleEntSnapshot] := by
  constructor
  · intro h
    have hone := h.handled Mem.zero (toLE 2 objectFrameCode.toNat ++ []) (by decide) (by decide)
    rw [invoked_append] at hone
    exact Except.ok.inj hone
  · intro h
    have hdeliver : ∀ {U V : Type} (read : V → U → V) (us : List U) (v : V),
        c.deliver read us v = us.foldl read v := fun read us v => by
      rw [NetSystemClient.deliver, h]
      rfl
    refine ⟨fun past packet hlen hcode => ?_, fun controller fs v => ?_,
      fun controller networkRate us v => ?_, fun controller hc networkRate us v => ?_⟩
    · rw [invoked, if_neg (by omega), read_code hlen, hcode, h]
    · rw [hdeliver]
      exact foldl_tally (fun v : NetVar => v.base.changes)
        (fun v f => CNetVarBase.changes_readUpdate controller v.base (v.received f)) fs v
    · rw [hdeliver]
      exact foldl_tally (fun v : CNetVarBufferedVector => v.changes)
        (CNetVarBufferedVector.changes_readUpdate controller networkRate) us v
    · rw [hdeliver]
      exact foldl_tally CNetVarBufferedVector.activePositionIndex
        (CNetVarBufferedVector.index_readUpdate hc networkRate) us v

namespace NetSystemClient

theorem bound_connect (answer : ConnectAnswer) (c : NetSystemClient) :
    bound objectFrameCode (c.connect answer).2.callbacks = bound objectFrameCode c.callbacks ++
      List.replicate (if answer.hasPeer then 1 else 0) .handleEntSnapshot := by
  have hbind : bound objectFrameCode c.bindHandlers.callbacks =
      bound objectFrameCode c.callbacks ++ [.handleEntSnapshot] := by
    rw [bindHandlers, bound, List.filterMap_append]
    rfl
  cases answer with
  | noPeer => exact (List.append_nil _).symm
  | failed peer => exact hbind
  | connected peer => exact hbind

/-- **Every call that has a peer binds the handler again.** -/
theorem bound_connects (answers : List ConnectAnswer) (c : NetSystemClient) :
    bound objectFrameCode (c.connects answers).callbacks = bound objectFrameCode c.callbacks ++
      List.replicate (answers.countP ConnectAnswer.hasPeer) .handleEntSnapshot := by
  induction answers generalizing c with
  | nil => exact (List.append_nil _).symm
  | cons answer answers ih =>
    have hcount : List.replicate ((answer :: answers).countP ConnectAnswer.hasPeer)
        Handler.handleEntSnapshot = List.replicate (if answer.hasPeer then 1 else 0) .handleEntSnapshot ++
          List.replicate (answers.countP ConnectAnswer.hasPeer) .handleEntSnapshot := by
      rw [List.replicate_append_replicate, List.countP_cons, Nat.add_comm]
    show bound objectFrameCode ((c.connect answer).2.connects answers).callbacks = _
    rw [ih, bound_connect, hcount, List.append_assoc]

theorem connected_connects (answers : List ConnectAnswer) (c : NetSystemClient) :
    (c.connects answers).connected = (c.connected || answers.any ConnectAnswer.connects) := by
  induction answers generalizing c with
  | nil => exact (Bool.or_false _).symm
  | cons answer answers ih =>
    have hconnect : (c.connect answer).2.connected = (c.connected || answer.connects) := by
      cases answer <;> simp [connect, bindHandlers, ConnectAnswer.connects]
    show ((c.connect answer).2.connects answers).connected = _
    rw [ih, hconnect, List.any_cons, Bool.or_assoc]

/-- **When snapshots are handled once.** A client that is connected after a number of calls handles
every snapshot once exactly when none of the calls connected, or one of them had a peer. -/
theorem handledOnce_iff (h : c.Constructed) (answers : List ConnectAnswer) :
    ((c.connects answers).connected = true → HandledOnce (c.connects answers)) ↔
      (∀ answer ∈ answers, answer.connects = false) ∨ answers.countP ConnectAnswer.hasPeer = 1 := by
  have hbound := bound_connects answers c
  have hnone : bound objectFrameCode c.callbacks = [] := by
    rw [h.callbacks]
    rfl
  rw [hnone, List.nil_append] at hbound
  rw [handledOnce_iff_bound, hbound, connected_connects, h.connected, Bool.false_or,
    ← List.replicate_one, List.replicate_inj]
  simp [imp_iff_not_or]

/-- A client with nothing in it. -/
def newClient : NetSystemClient where
  server := false
  callbacks := listCallbacks

theorem newClient_constructed : newClient.Constructed := ⟨rfl, rfl⟩

/-- A call that fails, and one that connects. -/
def retried : List ConnectAnswer := [.failed 1, .connected 1]

theorem handledOnce_iff_retried : newClient.Constructed ∧
    (((newClient.connects retried).connected = true → HandledOnce (newClient.connects retried)) ↔
      (∀ answer ∈ retried, answer.connects = false) ∨ retried.countP ConnectAnswer.hasPeer = 1) :=
  ⟨newClient_constructed, handledOnce_iff newClient_constructed retried⟩

/-- A byte. -/
def byteVar : NetVar where
  name := CStr.hp
  reliable := true
  size := 1
  size_lt := NetVar.byte_lt
  base := { data := Blob.byte 0 }

theorem not_handledOnce_retried : ¬ ∀ (c : NetSystemClient) (answers : List ConnectAnswer),
    c.Constructed → (c.connects answers).connected = true → HandledOnce (c.connects answers) := by
  intro h
  have hcounts := (h newClient retried newClient_constructed rfl).counts netControllerNone
    [byteVar.frame 7 ⟨#v[1], 1, false⟩] byteVar
  exact absurd hcounts (by decide)

end NetSystemClient

end Nettik
