import Nettik.World.System

/-!
# Sending

* `sendStream`, `broadcastStream`: the packets a stream turns into, and their channels;
* `sendObjectLists`: the creation of every object and the contents of its lists;
* `snapshotUpdate`, `connectHandler`: the two loops over the instances;
* `build`, `postUpdate`, `freeEntity`: objects made and freed on the server.
-/

namespace Nettik

open ByteMem Loops

/-- A packet handed to the transport; without a target it goes to every connected peer. -/
structure Send where
  channel : ℕ
  target : Option Peer
  reliable : Bool
  packet : Bytes
  deriving DecidableEq, Repr

/-- The two streams of a loop and what was sent so far. -/
structure LoopAcc where
  reliableStream : SnapshotStream := {}
  unreliableStream : SnapshotStream := {}
  sends : List Send := []

/-- A stream of one entry with the header `Generate` gives it. -/
def SnapshotStream.single (entry : Bytes) : SnapshotStream :=
  SnapshotHeader.generate (({} : SnapshotStream).push entry) 0 1 (UInt32.ofNat entry.length)

namespace NetSystem

/-- Without a peer nothing is sent. -/
def send (s : NetSystem) (packet : Bytes) (peer : Option Peer) (reliable : Bool) (channel : ℕ) :
    List Send :=
  match peer with
  | none => []
  | some p => if s.running then [⟨channel, some p, reliable, packet⟩] else []

def broadcast (s : NetSystem) (packet : Bytes) (reliable : Bool) (channel : ℕ) : List Send :=
  if s.running then [⟨channel, none, reliable, packet⟩] else []

def getFirstPeer (s : NetSystem) : Option Peer := s.peerList.head?

def sendStream (s : NetSystem) (stream : SnapshotStream) (reliable : Bool) (peer : Option Peer) :
    SnapshotStream × List Send :=
  let r := stream.result
  (r.2, s.send r.1 (peer <|> s.getFirstPeer) reliable (if reliable then 1 else 0))

def broadcastStream (s : NetSystem) (stream : SnapshotStream) (reliable : Bool) :
    SnapshotStream × List Send :=
  let r := stream.result
  (r.2, s.broadcast r.1 reliable 0)

/-! ## Objects and lists -/

/-- The creation update the manager sends; the net id and the controller are set for each object. -/
def creationUpdate (instanceName managerName : Bytes) : SnapshotEntList :=
  ((({} : SnapshotEntList).setFrametype kFrameAlloc).setName managerName).setData (instanceName ++ [0])

def sendLists (pb : Protobuf) (s : NetSystem) (object : AssociatedObject) (o : NetObject)
    (pRemotePeer : Peer) : List Send :=
  o.lists.zipIdx.flatMap fun l =>
    (l.1.sendContents object (UInt32.ofNat l.2)).flatMap fun msg =>
      s.send ((ListMsg.add msg).packet pb) (some pRemotePeer) true 1

def sendObjectLists (pb : Protobuf) (s : NetSystem) (instanceName : Bytes) (m : CEntities)
    (pOwner : Peer) : List Send :=
  m.objects.flatMap fun o =>
    let controllerStatus := if o.peer = some pOwner then netControllerLocal else netControllerNone
    let entry := (((creationUpdate instanceName m.name).setNetid o.netID).setController
      controllerStatus).write
    (s.sendStream (SnapshotStream.single entry) true (some pOwner)).2 ++
      sendLists pb s ⟨instanceName, m.name, o.netID⟩ o pOwner

def sendAllObjectLists (pb : Protobuf) (s : NetSystem) (i : VirtualInstance) (pOwner : Peer) :
    List Send :=
  i.managers.flatMap fun m => sendObjectLists pb s i.name m pOwner

/-! ## The loops over the instances -/

/-- One turn of either loop: `before` sends what precedes the snapshots, `out` sends a modified
stream. The streams are not cleared between the turns. -/
def visitInstance (running bForced : Bool) (before : VirtualInstance → List Send)
    (out : SnapshotStream → SnapshotStream × List Send) (i : VirtualInstance) (acc : LoopAcc) :
    VirtualInstance × LoopAcc :=
  let r := i.doSnapshot running true bForced acc.reliableStream
  let u := r.1.doSnapshot running false bForced acc.unreliableStream
  let sentR := if r.2.modified then out r.2 else (r.2, [])
  let sentU := if u.2.modified then out u.2 else (u.2, [])
  (u.1, ⟨sentR.1, sentU.1, acc.sends ++ (before i ++ (sentR.2 ++ sentU.2))⟩)

def visitInstances (s : NetSystem) (bForced : Bool) (before : VirtualInstance → List Send)
    (out : SnapshotStream → SnapshotStream × List Send) : NetSystem × List Send :=
  let r := each (visitInstance s.running bForced before out) s.instances {}
  ({ s with instances := r.1 }, r.2.sends)

/-- The loop of `SnapshotUpdate`. -/
def snapshotUpdate (s : NetSystem) : NetSystem × List Send :=
  s.visitInstances false (fun _ => []) fun stream =>
    if s.server then s.broadcastStream stream true else s.sendStream stream true none

/-- The handler `Listen` installs for a new peer. -/
def connectHandler (pb : Protobuf) (s : NetSystem) (peer : Peer) : NetSystem × List Send :=
  s.visitInstances true (fun i => sendAllObjectLists pb s i peer) fun stream =>
    s.sendStream stream true (some peer)

/-! ## Objects made and freed -/

/-- `Build` of the manager `managerName` of the instance `instanceName`. -/
def build (pb : Protobuf) (instanceName managerName : Bytes) (pOwner : Option Peer) (s : NetSystem) :
    NetSystem × List Send :=
  let s₁ : NetSystem := { s with totalEntities := s.totalEntities + 1, nextRef := s.nextRef + 1 }
  match s.getInstance instanceName with
  | none => (s, [])
  | some i =>
    match i.getManager managerName with
    | none => (s, [])
    | some m =>
      if s.server then
        let built : NetObject :=
          { ref := s.nextRef, netID := s.totalEntities, controller := netControllerLocal,
            peer := pOwner, vars := m.cls.vars, lists := m.cls.lists }
        let entry := (((creationUpdate instanceName managerName).setNetid built.netID).setController
          netControllerNone).write
        -- the changes made so far travel with the creation; the new object is not yet in the list
        let r := i.doSnapshot s.running true false (({} : SnapshotStream).push entry)
        let u := r.1.doSnapshot s.running false false {}
        let i₁ := u.1.modifyManager managerName fun m => { m with objects := m.objects ++ [built] }
        let lists := match pOwner, i₁.getManager managerName with
          | some p, some m₁ => sendObjectLists pb s instanceName m₁ p
          | _, _ => []
        let news := (if r.2.modified then (s.broadcastStream r.2 true).2 else []) ++
          if u.2.modified then (s.broadcastStream u.2 false).2 else []
        match pOwner with
        | none => (s₁.modifyInstance instanceName fun _ => i₁, lists ++ news)
        | some p =>
          let r' := i₁.doSnapshot s.running true true {}
          let u' := r'.1.doSnapshot s.running false true {}
          let full := (if r'.2.modified then (s.sendStream r'.2 true (some p)).2 else []) ++
            if u'.2.modified then (s.sendStream u'.2 true (some p)).2 else []
          (s₁.modifyInstance instanceName fun _ => u'.1, lists ++ (news ++ full))
      else (s₁, [])

/-- What the destructor of an object of this manager sends. -/
def freeEntity (instanceName managerName : Bytes) (target : NetObject) (s : NetSystem) :
    List Send :=
  if s.server then
    let deletionUpdate := (((({} : SnapshotEntList).setFrametype kFrameDealloc).setName
      managerName).setNetid target.netID).setData (instanceName ++ [0])
    (s.broadcastStream (SnapshotStream.single deletionUpdate.write) true).2
  else []

/-- `PostUpdate` of one manager: a server releases the objects nobody else holds. -/
def postUpdate (instanceName managerName : Bytes) (held : ObjRef → Bool) (s : NetSystem) :
    NetSystem × List Send :=
  match (s.getInstance instanceName).bind (·.getManager managerName) with
  | none => (s, [])
  | some m =>
    if s.running && s.server then
      (s.modifyInstance instanceName (·.modifyManager managerName fun m =>
          { m with objects := m.objects.filter fun o => held o.handle }),
        (m.objects.filter fun o => !held o.handle).flatMap fun o =>
          s.freeEntity instanceName managerName o)
    else (s, [])

end NetSystem

end Nettik
