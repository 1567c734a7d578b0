import Nettik.World.Object

/-!
# Controllers

* `NetSystem`: a server or a client, with the handlers bound to its message codes;
* `readEntityUpdate`, `entAllocate`, `entDeallocate`: what a frame does;
* `handleClientEntSnapshot`, `handleEntSnapshot`, `handleEntOwnership`, `onRemoteAdd`,
  `onRemoteUpdate`, `onRemoteRemove`: the handlers; `processRecv` runs those of a packet.
-/

namespace Nettik

open ByteMem Loops

/-! ## The controller -/

/-- The functions the library binds to message codes. -/
inductive Handler where
  | handleClientEntSnapshot
  | handleEntSnapshot
  | handleEntOwnership
  | onRemoteAdd
  | onRemoteUpdate
  | onRemoteRemove
  deriving DecidableEq, Repr

/-- `nextRef` is the address the next object is constructed at. -/
structure NetSystem where
  server : Bool
  running : Bool := true
  peerList : List Peer := []
  instances : List VirtualInstance := []
  totalEntities : UInt32 := 0
  controlledObjects : AList fun _ : UInt32 => ObjRef := ∅
  callbacks : List (UInt16 × Handler) := []
  nextRef : ℕ := 0

/-- `bind_controller`. -/
def listCallbacks : List (UInt16 × Handler) :=
  [(internalEvtListAdd, .onRemoteAdd), (internalEvtListData, .onRemoteUpdate),
    (internalEvtListRemove, .onRemoteRemove)]

/-- What the constructor of a server binds. -/
def serverCallbacks : List (UInt16 × Handler) :=
  listCallbacks ++ [(objectFrameCode, .handleClientEntSnapshot)]

/-- What the constructor of a client and one call of `Connect` bind. -/
def clientCallbacks : List (UInt16 × Handler) :=
  listCallbacks ++ [(objectFrameCode, .handleEntSnapshot), (clientOwnershipCode, .handleEntOwnership)]

/-- The text up to the first NUL. -/
def Frame.dataStr (f : Frame) : Bytes := f.data.takeWhile (· != 0)

namespace NetSystem

def getInstance (name : Bytes) (s : NetSystem) : Option VirtualInstance :=
  s.instances.find? (·.name == name)

def modifyInstance (name : Bytes) (f : VirtualInstance → VirtualInstance) (s : NetSystem) :
    NetSystem :=
  { s with instances := modifyFirst (·.name == name) f s.instances }

/-- The search of `ReadEntityUpdate`. -/
def findObject (id : UInt32) (s : NetSystem) : Option NetObject :=
  s.instances.findSome? (·.findObject id)

/-- Update the object that `findObject` finds. -/
def modifyObject (id : UInt32) (f : NetObject → NetObject) (s : NetSystem) : NetSystem :=
  { s with instances :=
      modifyFirst (fun i => (i.findObject id).isSome) (VirtualInstance.modifyObject id f) s.instances }

/-! ## Frames -/

/-- A frame from a peer changes only an object of that peer; without a peer any object. -/
def readEntityUpdate (frame : Frame) (owner : Option Peer) (s : NetSystem) : NetSystem :=
  match s.findObject frame.netID with
  | none => s
  | some target =>
    if owner.isSome && target.peer != owner then s
    else s.modifyObject frame.netID (NetObject.readUpdate frame)

def invalidInstance : String := "Invalid instance field passed from server."
def invalidManager : String := "Invalid manager field passed from server."

/-- A known net id is left as it is. -/
def entAllocate (frame : Frame) (s : NetSystem) : Outcome NetSystem :=
  match s.getInstance frame.dataStr with
  | none => (.error invalidInstance, s)
  | some i =>
    match i.getManager frame.name with
    | none => (.error invalidManager, s)
    | some m =>
      if (m.getByNetID frame.netID).isNone then
        let build := CEntities.buildLocal s.nextRef frame.netID frame.controller
        let s' := s.modifyInstance frame.dataStr (·.modifyManager frame.name build)
        (.ok (), { s' with
          nextRef := s.nextRef + 1
          controlledObjects :=
            if frame.controller = netControllerLocal then
              s.controlledObjects.insert frame.netID ⟨s.nextRef, frame.netID⟩
            else s.controlledObjects })
      else (.ok (), s)

def entDeallocate (frame : Frame) (s : NetSystem) : Outcome NetSystem :=
  match s.getInstance frame.dataStr with
  | none => (.error invalidInstance, s)
  | some i =>
    match i.getManager frame.name with
    | none => (.error invalidManager, s)
    | some m =>
      match m.getByNetID frame.netID with
      | none => (.ok (), s)
      | some object =>
        let s' := s.modifyInstance frame.dataStr
          (·.modifyManager frame.name (CEntities.freeLocal frame.netID))
        (.ok (), { s' with
          controlledObjects :=
            if object.isNetworkLocal then s.controlledObjects.erase frame.netID
            else s.controlledObjects })

/-! ## Handlers -/

/-- On the server only data frames count. -/
def actClient (peer : Option Peer) (frame : Frame) (s : NetSystem) : Outcome NetSystem :=
  (.ok (), if frame.frameType = kFrameData then s.readEntityUpdate frame peer else s)

def handleClientEntSnapshot (data : Mem) (dataLen : ℕ) (peer : Option Peer) (s : NetSystem) :
    Outcome NetSystem :=
  handleSnapshot (actClient peer) data dataLen s

def actServer (frame : Frame) (s : NetSystem) : Outcome NetSystem :=
  if frame.frameType = kFrameData then (.ok (), s.readEntityUpdate frame none)
  else if frame.frameType = kFrameAlloc then s.entAllocate frame
  else if frame.frameType = kFrameDealloc then s.entDeallocate frame
  else (.error "Unknown frame type sent, possible stack corruption.", s)

def handleEntSnapshot (data : Mem) (dataLen : ℕ) (s : NetSystem) : Outcome NetSystem :=
  handleSnapshot actServer data dataLen s

/-- The ids are read and not used. -/
def handleEntOwnership (data : Mem) (dataLen : ℕ) (s : NetSystem) : Outcome NetSystem :=
  match SnapshotHeader.read data dataLen with
  | .error e => (.error e, s)
  | .ok _ => (.ok (), s)

/-- Update the list a message names; a message that names nothing is dropped. -/
def modifyList (target : AssociatedObject) (listID : UInt32)
    (f : ListContext → NetVarList → NetVarList) (s : NetSystem) : NetSystem :=
  s.modifyInstance target.instanceName fun i =>
    i.modifyManager target.managerName fun m =>
      m.modifyObject target.networkCode fun o =>
        let ctx : ListContext := ⟨⟨i.name, m.name, o.netID⟩, m.getPlayers, o.peer, listID⟩
        { o with lists := o.lists.modify listID.toNat (f ctx) }

def onRemoteAdd (m : MapAdd) (s : NetSystem) : NetSystem :=
  s.modifyList m.target m.listID fun ctx l => l.onRemoteAdd ctx m

def onRemoteUpdate (m : MapUpdate) (s : NetSystem) : NetSystem :=
  s.modifyList m.target m.listID fun ctx l => l.onRemoteUpdate ctx m

def onRemoteRemove (m : MapRemove) (s : NetSystem) : NetSystem :=
  s.modifyList m.target m.listID fun ctx l => l.onRemoteRemove ctx m

/-- `CProtoPacket::Read` skips the code and ignores whether the parse succeeded. -/
def protoBytes (data : Mem) (dataLen : ℕ) : Bytes := (data.shift 2).read (dataLen - 2)

def runHandler (pb : Protobuf) (data : Mem) (dataLen : ℕ) (peer : Peer) (h : Handler)
    (s : NetSystem) : Outcome NetSystem :=
  match h with
  | .handleClientEntSnapshot => s.handleClientEntSnapshot data dataLen (some peer)
  | .handleEntSnapshot => s.handleEntSnapshot data dataLen
  | .handleEntOwnership => s.handleEntOwnership data dataLen
  | .onRemoteAdd => (.ok (), s.onRemoteAdd (pb.parseAdd (protoBytes data dataLen)).2)
  | .onRemoteUpdate => (.ok (), s.onRemoteUpdate (pb.parseUpdate (protoBytes data dataLen)).2)
  | .onRemoteRemove => (.ok (), s.onRemoteRemove (pb.parseRemove (protoBytes data dataLen)).2)

/-- The handlers bound to a code, in the order of their binding. -/
def handlersOf (code : UInt16) (s : NetSystem) : List Handler :=
  s.callbacks.filterMap fun c => if c.1 = code then some c.2 else none

def processRecv (pb : Protobuf) (data : Mem) (dataLen : ℕ) (peer : Peer) (s : NetSystem) :
    Outcome NetSystem :=
  if !s.running then (.ok (), s)
  else if dataLen < 2 then
    (.error "Cannot parse data that has less than the code data type size (out of bounds prevention)",
      s)
  else throughout (runHandler pb data dataLen peer) (s.handlersOf (u16Of (data.read 2))) s

/-- A packet of the given bytes, with `past` behind it in memory. -/
def receive (pb : Protobuf) (past : Mem) (peer : Peer) (packet : Bytes) (s : NetSystem) :
    Outcome NetSystem :=
  s.processRecv pb (Mem.ofList packet past) packet.length peer

end NetSystem

end Nettik
