import Nettik.Snapshot.RoundTrip
import Nettik.World.List

/-!
# Objects, managers and instances

* `NetObject`, `CEntities`, `VirtualInstance`: the containers, and the searches through them;
* `doSnapshot`: the walk that writes the changed variables of an instance into a stream;
* **`doSnapshot_eq`**: a walk appends the frames `emitted` and leaves the instance `snapped`.
-/

namespace Nettik

open ByteMem Loops

/-! ## Containers -/

/-- A shared pointer to an object, with the net id the containers read through it. -/
structure ObjRef where
  ref : ℕ
  netID : UInt32
  deriving DecidableEq, Repr

structure NetObject where
  ref : ℕ
  netID : UInt32
  controller : UInt32 := netControllerNone
  peer : Option Peer := none
  vars : List NetVar := []
  lists : List NetVarList := []

namespace NetObject

def handle (o : NetObject) : ObjRef := ⟨o.ref, o.netID⟩

def isNetworkLocal (o : NetObject) : Bool := o.controller == netControllerLocal

/-- The variable is the first one of that name. -/
def readUpdate (frame : Frame) (o : NetObject) : NetObject :=
  let named (v : NetVar) : Bool := v.name.1 == frame.name
  { o with vars := modifyFirst named (NetVar.readUpdate o.controller frame) o.vars }

end NetObject

/-- What the constructor of an object type leaves in its variables and lists: no frame was sent or
received, and the lists are empty. List ids are 32 bits wide. -/
structure ObjectClass where
  vars : List NetVar := []
  lists : List NetVarList := []
  fresh : ∀ v ∈ vars, v.base.sequenceID = 0 := by simp
  empty : ∀ l ∈ lists, l.data = ∅ := by simp
  lists_lt : lists.length < 2 ^ 32 := by decide

/-- A class without variables and lists. -/
def ObjectClass.bare : ObjectClass := {}

/-- `SetName` bounds the name. -/
structure CEntities where
  name : Bytes
  name_le : name.length ≤ maxEntmgrName
  cls : ObjectClass
  objects : List NetObject := []
  objectsLocal : List ObjRef := []

namespace CEntities

theorem p_le : ([112] : Bytes).length ≤ maxEntmgrName := by decide

def getByNetID (id : UInt32) (m : CEntities) : Option NetObject := m.objects.find? (·.netID == id)

def modifyObject (id : UInt32) (f : NetObject → NetObject) (m : CEntities) : CEntities :=
  { m with objects := modifyFirst (·.netID == id) f m.objects }

/-- The peers that own an object. -/
def getPlayers (m : CEntities) : List Peer := m.objects.filterMap NetObject.peer

/-- `ref` is the address of the new object. -/
def buildLocal (ref : ℕ) (netID controller : UInt32) (m : CEntities) : CEntities :=
  let built : NetObject :=
    { ref := ref, netID := netID, controller := controller, vars := m.cls.vars, lists := m.cls.lists }
  { m with
    objects := m.objects ++ [built]
    objectsLocal := if built.isNetworkLocal then m.objectsLocal ++ [built.handle] else m.objectsLocal }

/-- The first object of that id is erased from either list. -/
def freeLocal (netID : UInt32) (m : CEntities) : CEntities :=
  { m with
    objects := m.objects.eraseP (·.netID == netID)
    objectsLocal := m.objectsLocal.eraseP (·.netID == netID) }

end CEntities

structure VirtualInstance where
  name : Bytes
  managers : List CEntities := []
  sequenceID : UInt32 := 0

namespace VirtualInstance

def getManager (name : Bytes) (i : VirtualInstance) : Option CEntities :=
  i.managers.find? (·.name == name)

def modifyManager (name : Bytes) (f : CEntities → CEntities) (i : VirtualInstance) :
    VirtualInstance :=
  { i with managers := modifyFirst (·.name == name) f i.managers }

def findObject (id : UInt32) (i : VirtualInstance) : Option NetObject :=
  i.managers.findSome? (·.getByNetID id)

/-- Update the object that `findObject` finds. -/
def modifyObject (id : UInt32) (f : NetObject → NetObject) (i : VirtualInstance) :
    VirtualInstance :=
  { i with managers :=
      modifyFirst (fun m => (m.getByNetID id).isSome) (CEntities.modifyObject id f) i.managers }

end VirtualInstance

/-! ## Snapshots -/

/-- `TakeVariableSnapshot` returns the size of the entry it wrote, or `0`. -/
def NetVar.takeVariableSnapshot (netID : UInt32) (bForced : Bool) (v : NetVar)
    (buffers : SnapshotStream) : ℕ × NetVar × SnapshotStream :=
  match v.base.takeVariableSnapshot bForced with
  | (none, base) => (0, { v with base := base }, buffers)
  | (some u, base) =>
    let buffer := (v.frame netID u).build.write
    (buffer.length, { v with base := base }, buffers.push buffer)

/-- What a snapshot threads by reference. -/
structure SnapshotAcc where
  maxValue : ℕ
  numUpdates : UInt16
  stream : SnapshotStream

/-- One turn of the loop of `TakeObjectSnapshot`. -/
def NetVar.visit (netID : UInt32) (bReliableFlag bForced : Bool) (v : NetVar) (acc : SnapshotAcc) :
    NetVar × SnapshotAcc :=
  if v.reliable != bReliableFlag then (v, acc)
  else
    let (maxSize, v', stream) := v.takeVariableSnapshot netID bForced acc.stream
    if maxSize = 0 then (v', { acc with stream := stream })
    else (v', ⟨if acc.maxValue < maxSize then maxSize else acc.maxValue, acc.numUpdates + 1, stream⟩)

def NetObject.takeObjectSnapshot (bReliableFlag bForced : Bool) (o : NetObject) (acc : SnapshotAcc) :
    NetObject × SnapshotAcc :=
  let r := each (NetVar.visit o.netID bReliableFlag bForced) o.vars acc
  ({ o with vars := r.1 }, r.2)

/-- Only locally owned objects are walked. -/
def CEntities.getSnapshot (running bReliableFlag bForced : Bool) (m : CEntities)
    (acc : SnapshotAcc) : CEntities × SnapshotAcc :=
  if running then
    let r := each (fun o acc =>
      if o.isNetworkLocal then o.takeObjectSnapshot bReliableFlag bForced acc else (o, acc)) m.objects acc
    ({ m with objects := r.1 }, r.2)
  else (m, acc)

/-- The maximum starts with the entries a stream holds already, the header entry among them, and
the count with their number. -/
def VirtualInstance.doSnapshot (running bReliableFlag bForced : Bool) (i : VirtualInstance)
    (stream : SnapshotStream) : VirtualInstance × SnapshotStream :=
  let maxValue :=
    if stream.modified then SnapshotStream.longest (stream.header :: stream.frames) else 0
  let numUpdates := UInt16.ofNat (stream.frames.length + 1) - 1
  let r := each (CEntities.getSnapshot running bReliableFlag bForced) i.managers
    ⟨maxValue, numUpdates, stream⟩
  let i' := { i with managers := r.1 }
  if r.2.numUpdates = 0 then (i', r.2.stream)
  else (i', SnapshotHeader.generate r.2.stream i.sequenceID r.2.numUpdates
    (UInt32.ofNat r.2.maxValue))

/-! ### What a walk appends, and what it leaves behind -/

namespace SnapshotAcc

/-- The accumulator once `fs` are written. -/
def add (acc : SnapshotAcc) (fs : List Frame) : SnapshotAcc where
  maxValue := (fs.map (·.build.write)).foldl (fun n e => max n e.length) acc.maxValue
  numUpdates := acc.numUpdates + UInt16.ofNat fs.length
  stream := { acc.stream with frames := acc.stream.frames ++ fs.map (·.build.write) }

theorem add_nil (acc : SnapshotAcc) : acc.add [] = acc := by
  simp [add]

theorem add_add (acc : SnapshotAcc) (fs gs : List Frame) : (acc.add fs).add gs = acc.add (fs ++ gs) := by
  simp [add, List.foldl_append, UInt16.ofNat_add, UInt16.add_assoc]

end SnapshotAcc

variable (bReliableFlag bForced : Bool)

def NetVar.emitted (netID : UInt32) (v : NetVar) : List Frame :=
  if v.reliable = bReliableFlag then
    ((v.base.takeVariableSnapshot bForced).1.map (v.frame netID)).toList
  else []

def NetVar.snapped (v : NetVar) : NetVar :=
  if v.reliable = bReliableFlag then { v with base := (v.base.takeVariableSnapshot bForced).2 } else v

def NetObject.emitted (o : NetObject) : List Frame :=
  if o.isNetworkLocal then o.vars.flatMap (NetVar.emitted bReliableFlag bForced o.netID) else []

def NetObject.snapped (o : NetObject) : NetObject :=
  if o.isNetworkLocal then { o with vars := o.vars.map (NetVar.snapped bReliableFlag bForced) } else o

def CEntities.emitted (m : CEntities) : List Frame :=
  m.objects.flatMap (NetObject.emitted bReliableFlag bForced)

def CEntities.snapped (m : CEntities) : CEntities :=
  { m with objects := m.objects.map (NetObject.snapped bReliableFlag bForced) }

def VirtualInstance.emitted (i : VirtualInstance) : List Frame :=
  i.managers.flatMap (CEntities.emitted bReliableFlag bForced)

def VirtualInstance.snapped (i : VirtualInstance) : VirtualInstance :=
  { i with managers := i.managers.map (CEntities.snapped bReliableFlag bForced) }

theorem length_write_ne_zero (f : Frame) : f.build.write.length ≠ 0 := by
  simp [SnapshotEntList.write]

theorem NetVar.visit_eq (netID : UInt32) (v : NetVar) (acc : SnapshotAcc) :
    v.visit netID bReliableFlag bForced acc =
      (v.snapped bReliableFlag bForced, acc.add (v.emitted bReliableFlag bForced netID)) := by
  by_cases hr : v.reliable = bReliableFlag
  · rw [visit, snapped, emitted, if_neg (by simp [hr]), if_pos hr, if_pos hr, takeVariableSnapshot]
    rcases v.base.takeVariableSnapshot bForced with ⟨_ | u, base⟩
    · simp [SnapshotAcc.add_nil]
    · have hne := length_write_ne_zero (v.frame netID u)
      simp only [if_neg hne, SnapshotAcc.add, Option.map_some, Option.toList_some, List.map_cons,
        List.map_nil, List.foldl_cons, List.foldl_nil, SnapshotStream.push, List.length_singleton]
      congr 2
      rw [max_def']
      split_ifs <;> omega
  · rw [visit, snapped, emitted, if_pos (by simpa using hr), if_neg hr, if_neg hr,
      SnapshotAcc.add_nil]

theorem NetObject.takeObjectSnapshot_eq {o : NetObject} (ho : o.isNetworkLocal = true)
    (acc : SnapshotAcc) : o.takeObjectSnapshot bReliableFlag bForced acc =
      (o.snapped bReliableFlag bForced, acc.add (o.emitted bReliableFlag bForced)) := by
  rw [takeObjectSnapshot, each_collect SnapshotAcc.add_nil SnapshotAcc.add_add o.vars
    fun v _ acc => v.visit_eq bReliableFlag bForced o.netID acc, snapped, emitted, if_pos ho,
    if_pos ho]

theorem CEntities.getSnapshot_eq (m : CEntities) (acc : SnapshotAcc) :
    m.getSnapshot true bReliableFlag bForced acc =
      (m.snapped bReliableFlag bForced, acc.add (m.emitted bReliableFlag bForced)) := by
  have hstep : ∀ o ∈ m.objects, ∀ acc : SnapshotAcc,
      (if o.isNetworkLocal then o.takeObjectSnapshot bReliableFlag bForced acc else (o, acc)) =
        (o.snapped bReliableFlag bForced, acc.add (o.emitted bReliableFlag bForced)) := by
    intro o _ acc
    by_cases ho : o.isNetworkLocal = true
    · rw [if_pos ho, NetObject.takeObjectSnapshot_eq bReliableFlag bForced ho]
    · rw [if_neg ho, NetObject.snapped, NetObject.emitted, if_neg ho, if_neg ho, SnapshotAcc.add_nil]
  rw [getSnapshot, if_pos rfl, each_collect SnapshotAcc.add_nil SnapshotAcc.add_add m.objects hstep]
  rfl

/-- **The walk over an instance.** -/
theorem VirtualInstance.doSnapshot_eq (i : VirtualInstance) (stream : SnapshotStream) :
    i.doSnapshot true bReliableFlag bForced stream =
      let acc : SnapshotAcc := SnapshotAcc.add ⟨
        if stream.modified then SnapshotStream.longest (stream.header :: stream.frames) else 0,
        UInt16.ofNat stream.frames.length, stream⟩ (i.emitted bReliableFlag bForced)
      (i.snapped bReliableFlag bForced,
        if acc.numUpdates = 0 then acc.stream
        else SnapshotHeader.generate acc.stream i.sequenceID acc.numUpdates
          (UInt32.ofNat acc.maxValue)) := by
  have hcount : UInt16.ofNat (stream.frames.length + 1) - 1 = UInt16.ofNat stream.frames.length := by
    rw [UInt16.ofNat_add]
    simp
  rw [doSnapshot, hcount, each_collect SnapshotAcc.add_nil SnapshotAcc.add_add i.managers
    fun m _ acc => m.getSnapshot_eq bReliableFlag bForced acc]
  simp only [emitted]
  split_ifs <;> rfl

theorem VirtualInstance.fst_doSnapshot (i : VirtualInstance) (stream : SnapshotStream) :
    (i.doSnapshot true bReliableFlag bForced stream).1 = i.snapped bReliableFlag bForced := by
  rw [doSnapshot_eq]

end Nettik
