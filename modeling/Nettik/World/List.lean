import Mathlib.Data.List.AList
import Nettik.Lib.Wire
import Nettik.World.Var

/-!
# Networked lists

`CNetVarList` is a map from keys to elements whose changes travel as remote procedure calls, each a
code followed by a protobuf message.

* `MapAdd`, `MapRemove`, `ListMsg`: the messages; `Protobuf` what the code uses of the library,
  `Protobuf.wire` the proto3 encoding of `EntityMessages.proto`;
* `NetVarList`: the list, `onRemoteAdd`, `onRemoteUpdate`, `onRemoteRemove` the receiving side,
  `sendContents` the sending side;
* **`find_sendContents`**: a list that receives the contents of another holds its elements.
-/

namespace Nettik

open ByteMem Wire

abbrev Peer := ℕ

/-! ## Messages -/

structure AssociatedObject where
  instanceName : Bytes
  managerName : Bytes
  networkCode : UInt32
  deriving DecidableEq, Repr

structure MapAdd where
  target : AssociatedObject
  key : UInt32
  value : Bytes
  listID : UInt32
  deriving DecidableEq, Repr

/-- `INetworkMapUpdate` has the fields of `INetworkMapAdd`. -/
abbrev MapUpdate := MapAdd

structure MapRemove where
  target : AssociatedObject
  key : UInt32
  listID : UInt32
  deriving DecidableEq, Repr

def internalEvtListAdd : UInt16 := 0xFFFF
def internalEvtListData : UInt16 := 0xFFFE
def internalEvtListRemove : UInt16 := 0xFFFD

inductive ListMsg where
  | add (m : MapAdd)
  | update (m : MapUpdate)
  | remove (m : MapRemove)
  deriving DecidableEq, Repr

/-- Serialisation and `ParseFromArray` of the three messages. A parse says whether it succeeded and
leaves what it read in the message. -/
structure Protobuf where
  serializeAdd : MapAdd → Bytes
  serializeUpdate : MapUpdate → Bytes
  serializeRemove : MapRemove → Bytes
  parseAdd : Bytes → Bool × MapAdd
  parseUpdate : Bytes → Bool × MapUpdate
  parseRemove : Bytes → Bool × MapRemove

/-- Parsing undoes serialisation. -/
structure Protobuf.RoundTrips (pb : Protobuf) : Prop where
  add : ∀ m, pb.parseAdd (pb.serializeAdd m) = (true, m)
  update : ∀ m, pb.parseUpdate (pb.serializeUpdate m) = (true, m)
  remove : ∀ m, pb.parseRemove (pb.serializeRemove m) = (true, m)

/-- `GenerateStream`. -/
def ListMsg.packet (pb : Protobuf) : ListMsg → Bytes
  | .add m => toLE 2 internalEvtListAdd.toNat ++ pb.serializeAdd m
  | .update m => toLE 2 internalEvtListData.toNat ++ pb.serializeUpdate m
  | .remove m => toLE 2 internalEvtListRemove.toNat ++ pb.serializeRemove m

/-! ### The encoding of `EntityMessages.proto` -/

def AssociatedObject.fields (o : AssociatedObject) : List Field :=
  putBytes 1 o.instanceName ++ (putBytes 2 o.managerName ++ putUInt 3 o.networkCode)

def AssociatedObject.ofFields (fs : List Field) : AssociatedObject :=
  ⟨getBytes 1 fs, getBytes 2 fs, getUInt 3 fs⟩

def MapAdd.fields (m : MapAdd) : List Field :=
  Field.bytes 1 (encode m.target.fields) ::
    (putUInt 2 m.key ++ (putBytes 3 m.value ++ putUInt 4 m.listID))

def MapAdd.ofFields (fs : List Field) : MapAdd :=
  ⟨.ofFields (decode (getBytes 1 fs)).2, getUInt 2 fs, getBytes 3 fs, getUInt 4 fs⟩

def MapRemove.fields (m : MapRemove) : List Field :=
  Field.bytes 1 (encode m.target.fields) :: (putUInt 2 m.key ++ putUInt 3 m.listID)

def MapRemove.ofFields (fs : List Field) : MapRemove :=
  ⟨.ofFields (decode (getBytes 1 fs)).2, getUInt 2 fs, getUInt 3 fs⟩

def Protobuf.wire : Protobuf where
  serializeAdd m := encode m.fields
  serializeUpdate m := encode m.fields
  serializeRemove m := encode m.fields
  parseAdd bs := ((decode bs).1, .ofFields (decode bs).2)
  parseUpdate bs := ((decode bs).1, .ofFields (decode bs).2)
  parseRemove bs := ((decode bs).1, .ofFields (decode bs).2)

theorem AssociatedObject.ofFields_fields (o : AssociatedObject) : ofFields o.fields = o := by
  simp [ofFields, fields, getBytes, getUInt]

theorem MapAdd.ofFields_fields (m : MapAdd) : ofFields m.fields = m := by
  simp [ofFields, fields, getBytes, getUInt, Field.uintAt, Field.bytesAt,
    decode_encode, AssociatedObject.ofFields_fields]

theorem MapRemove.ofFields_fields (m : MapRemove) : ofFields m.fields = m := by
  simp [ofFields, fields, getBytes, getUInt, Field.uintAt, Field.bytesAt,
    decode_encode, AssociatedObject.ofFields_fields]

theorem Protobuf.wire_roundTrips : Protobuf.wire.RoundTrips where
  add m := by simp [wire, decode_encode, MapAdd.ofFields_fields]
  update m := by simp [wire, decode_encode, MapAdd.ofFields_fields]
  remove m := by simp [wire, decode_encode, MapRemove.ofFields_fields]

/-! ## The list -/

/-- A queued packet: its message, the peer it is not sent to, and the peers it is sent to. -/
structure QueuedPacket where
  msg : ListMsg
  filter : Option Peer
  peers : List Peer := []
  deriving DecidableEq, Repr

/-- A list of elements of `size` bytes. `initial` is what the element type constructs. -/
structure NetVarList where
  size : ℕ
  initial : Blob size
  data : AList fun _ : UInt32 => Blob size := ∅
  updateQueue : List QueuedPacket := []

/-- What a list reads from its parent: the object's reference, the peers that own an object of its
manager, its own peer, and the position of the list. -/
structure ListContext where
  object : AssociatedObject
  players : List Peer
  peer : Option Peer
  listID : UInt32

namespace NetVarList

/-- `m_Data[key]`, which inserts a missing key. -/
def subscript (key : UInt32) (l : NetVarList) : NetVarList :=
  { l with data := if key ∈ l.data then l.data else l.data.insert key l.initial }

/-- The bytes of an element. -/
def find (key : UInt32) (l : NetVarList) : Option Bytes := (l.data.lookup key).map Vector.toList

/-- The callback the constructor binds to each event: pass the change on when the manager has more
than one player. -/
def relay (ctx : ListContext) (msg : ListMsg) (l : NetVarList) : NetVarList :=
  if ctx.players.length ≤ 1 then l
  else { l with updateQueue := l.updateQueue ++ [⟨msg, ctx.peer, []⟩] }

def construct (ctx : ListContext) (key : UInt32) (l : NetVarList) : MapAdd :=
  ⟨ctx.object, key, (l.find key).getD l.initial.toList, ctx.listID⟩

def dispatchAdd (ctx : ListContext) (key : UInt32) (l : NetVarList) : NetVarList :=
  (l.subscript key).relay ctx (.add ((l.subscript key).construct ctx key))

def dispatchUpdate (ctx : ListContext) (key : UInt32) (l : NetVarList) : NetVarList :=
  (l.subscript key).relay ctx (.update ((l.subscript key).construct ctx key))

def dispatchRemove (ctx : ListContext) (key : UInt32) (l : NetVarList) : NetVarList :=
  (l.subscript key).relay ctx (.remove ⟨ctx.object, key, ctx.listID⟩)

/-- Write received bytes over an element. -/
def overwrite (key : UInt32) (value : Bytes) (l : NetVarList) : NetVarList :=
  { l with data := l.data.insert key (Blob.ofMem l.size (Mem.ofList value Mem.zero)) }

/-- The key is built before the sizes are compared. -/
def onRemoteAdd (ctx : ListContext) (m : MapAdd) (l : NetVarList) : NetVarList :=
  if m.value.length = l.size then
    ((l.subscript m.key).overwrite m.key m.value).dispatchAdd ctx m.key
  else l.subscript m.key

def onRemoteUpdate (ctx : ListContext) (m : MapUpdate) (l : NetVarList) : NetVarList :=
  if m.key ∈ l.data ∧ m.value.length = l.size then
    (l.overwrite m.key m.value).dispatchUpdate ctx m.key
  else l

/-- The callbacks run before the element is erased. -/
def onRemoteRemove (ctx : ListContext) (m : MapRemove) (l : NetVarList) : NetVarList :=
  { l.dispatchRemove ctx m.key with data := (l.dispatchRemove ctx m.key).data.erase m.key }

/-- One message for every element. -/
def sendContents (object : AssociatedObject) (listID : UInt32) (l : NetVarList) : List MapAdd :=
  l.data.entries.map fun item => ⟨object, item.1, item.2.toList, listID⟩

/-! ### Catching up with another list -/

theorem find_overwrite (key : UInt32) (value : Bytes) (l : NetVarList) (k : UInt32) :
    (l.overwrite key value).find k =
      if k = key then some ((Mem.ofList value Mem.zero).read l.size) else l.find k := by
  by_cases hk : k = key
  · subst hk
    rw [if_pos rfl, ← Blob.toList_ofMem]
    exact congrArg _ (AList.lookup_insert _)
  · rw [if_neg hk]
    exact congrArg (Option.map Vector.toList) (AList.lookup_insert_ne hk)

/-- Received bytes of the right size are the new element. -/
theorem find_overwrite_sized {l : NetVarList} {value : Bytes} (h : value.length = l.size)
    (key k : UInt32) :
    (l.overwrite key value).find k = if k = key then some value else l.find k := by
  have hread := Mem.read_ofList h [] Mem.zero
  rw [List.append_nil] at hread
  rw [find_overwrite, hread]

theorem find_subscript {key k : UInt32} (h : k ≠ key) (l : NetVarList) :
    (l.subscript key).find k = l.find k := by
  simp only [find, subscript]
  split_ifs
  · rfl
  · rw [AList.lookup_insert_ne h]

/-- An addition that is not passed on. -/
def added (m : MapAdd) (l : NetVarList) : NetVarList :=
  if m.value.length = l.size then (l.subscript m.key).overwrite m.key m.value
  else l.subscript m.key

theorem onRemoteAdd_eq {ctx : ListContext} (h : ctx.players.length ≤ 1) (m : MapAdd)
    (l : NetVarList) : l.onRemoteAdd ctx m = l.added m := by
  have hmem : m.key ∈ ((l.subscript m.key).overwrite m.key m.value).data :=
    (AList.mem_insert _).mpr (Or.inl rfl)
  rw [onRemoteAdd, added, dispatchAdd, relay, if_pos h, subscript, if_pos hmem]

@[simp] theorem size_added (m : MapAdd) (l : NetVarList) : (l.added m).size = l.size := by
  rw [added]
  split_ifs <;> rfl

theorem find_added {m : MapAdd} {l : NetVarList} (hm : m.value.length = l.size) (k : UInt32) :
    (l.added m).find k = if k = m.key then some m.value else l.find k := by
  have hover := find_overwrite_sized (l := l.subscript m.key) hm m.key k
  rw [added, if_pos hm, hover]
  by_cases hk : k = m.key
  · rw [if_pos hk, if_pos hk]
  · rw [if_neg hk, if_neg hk, find_subscript hk]

/-- **A list that receives the contents of another holds its elements**, besides what it had. -/
theorem find_addAll (ms : List MapAdd) {l : NetVarList} (hm : ∀ m ∈ ms, m.value.length = l.size)
    (hkeys : (ms.map MapAdd.key).Nodup) (k : UInt32) :
    (ms.foldl (fun l m => l.added m) l).find k =
      ((ms.find? (·.key == k)).map MapAdd.value).or (l.find k) := by
  induction ms generalizing l with
  | nil => rfl
  | cons m ms ih =>
    obtain ⟨hnot, hkeys⟩ := List.nodup_cons.mp hkeys
    have hlen := hm m List.mem_cons_self
    have hrest : ∀ m' ∈ ms, m'.value.length = (l.added m).size := by
      intro m' hm'
      rw [size_added, hm m' (List.mem_cons_of_mem _ hm')]
    rw [List.foldl_cons, ih hrest hkeys, find_added hlen, List.find?_cons]
    by_cases hk : m.key = k
    · have hnone : ms.find? (·.key == k) = none := by
        rw [List.find?_eq_none]
        intro m' hm' hk'
        exact hnot (List.mem_map.mpr ⟨m', hm', by rw [hk]; simpa using hk'⟩)
      simp [hk, hnone]
    · have hk' : k ≠ m.key := fun e => hk e.symm
      have hb : (m.key == k) = false := by simpa using hk
      rw [if_neg hk', hb]

theorem size_addAll (ms : List MapAdd) (l : NetVarList) :
    (ms.foldl (fun l m => l.added m) l).size = l.size := by
  induction ms generalizing l with
  | nil => rfl
  | cons m ms ih => rw [List.foldl_cons, ih, size_added]

theorem find?_sendContents (object : AssociatedObject) (listID : UInt32) (l : NetVarList)
    (k : UInt32) :
    ((l.sendContents object listID).find? (·.key == k)).map MapAdd.value = l.find k := by
  unfold sendContents find AList.lookup
  induction l.data.entries with
  | nil => rfl
  | cons item items ih =>
    obtain ⟨key, v⟩ := item
    rw [List.map_cons, List.find?_cons]
    by_cases hk : key = k
    · subst hk
      simp [List.dlookup_cons_eq]
    · have hb : (key == k) = false := by simpa using hk
      have hne : k ≠ (⟨key, v⟩ : Σ _ : UInt32, Blob l.size).1 := fun e => hk e.symm
      rw [List.dlookup_cons_ne _ _ hne]
      simpa [hb] using ih

theorem nodup_sendContents (object : AssociatedObject) (listID : UInt32) (l : NetVarList) :
    ((l.sendContents object listID).map MapAdd.key).Nodup := by
  have := l.data.nodupKeys
  rwa [List.NodupKeys, List.keys, ← show (l.sendContents object listID).map MapAdd.key =
    l.data.entries.map Sigma.fst by simp [sendContents]] at this

/-- **An empty list that receives the contents of `l` holds the elements of `l`.** -/
theorem find_sendContents {object : AssociatedObject} {listID : UInt32} {l l' : NetVarList}
    (hsize : l'.size = l.size) (hempty : l'.data = ∅) (k : UInt32) :
    ((l.sendContents object listID).foldl (fun l m => l.added m) l').find k = l.find k := by
  have hnone : l'.find k = none := by
    rw [find, hempty]
    rfl
  have hlen : ∀ m ∈ l.sendContents object listID, m.value.length = l'.size := by
    intro m hm
    obtain ⟨item, -, rfl⟩ := List.mem_map.mp hm
    simp [hsize]
  rw [find_addAll _ hlen (nodup_sendContents object listID l), find?_sendContents, hnone,
    Option.or_none]

end NetVarList

end Nettik
