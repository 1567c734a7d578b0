import Nettik.World.Events
import Nettik.World.Rights

/-!
# Operations that fail

What a list is after an operation that throws, or a message that is rejected.

* `callIn`: the calls of the application with the exception of a list without a manager;
* `EventSystem`: a controller whose lists have bindings; `onRemote` the list handlers, `receive` a
  packet; `net_receive_unscheduled`: without a `ScheduleCheck` it is the `NetSystem`;
* **`failures_iff`**: which failures leave elements and queue as they were.
-/

namespace Nettik

open ByteMem Loops Replay

/-! ## Calls of the application -/

/-- The call does nothing: it creates a key that is there, or changes or removes one that is not. -/
def Idle {size : ℕ} (l : NetVarList) : ListOp size → Prop
  | .create key _ => key ∈ l.data
  | .set key _ | .remove key => key ∉ l.data
  | .removeAll _ | .clear _ => l.data.keys = []

def invalidObjectManager : String := "Tried sending contents of invalid object manager."

namespace NetVarList

variable {size : ℕ}

/-- A packet names the manager and the instance; `parent` is `none` when the object has not both. -/
def scheduleIn (parent : Option ListContext) (msg : ListContext → ListMsg) (l : NetVarList) :
    Outcome NetVarList :=
  match parent with
  | none => (.error invalidObjectManager, l)
  | some ctx => (.ok (), l.schedule (msg ctx))

/-- The element is inserted before the parent is looked at. -/
def createIn (parent : Option ListContext) (key : UInt32) (data : Bytes) (l : NetVarList) :
    Outcome NetVarList :=
  if key ∈ l.data then (.ok (), l)
  else (l.overwrite key data).scheduleIn parent fun ctx => .add ⟨ctx.object, key, data, ctx.listID⟩

def removeItemIn (parent : Option ListContext) (key : UInt32) (l : NetVarList) : Outcome NetVarList :=
  { l with data := l.data.erase key }.scheduleIn parent fun ctx => .remove ⟨ctx.object, key, ctx.listID⟩

def removeIn (parent : Option ListContext) (key : UInt32) (l : NetVarList) : Outcome NetVarList :=
  if key ∈ l.data then l.removeItemIn parent key else (.ok (), l)

def setIn (parent : Option ListContext) (key : UInt32) (data : Bytes) (l : NetVarList) :
    Outcome NetVarList :=
  if key ∈ l.data then
    (l.overwrite key data).scheduleIn parent fun ctx => .update ⟨ctx.object, key, data, ctx.listID⟩
  else (.ok (), l)

def removeAllIn (parent : Option ListContext) (order : List UInt32) (l : NetVarList) :
    Outcome NetVarList :=
  throughout (removeIn parent) (l.walk order) l

def clearIn (parent : Option ListContext) (order : List UInt32) (l : NetVarList) : Outcome NetVarList :=
  throughout (removeItemIn parent) (l.walk order) l

def callIn (parent : Option ListContext) (op : ListOp size) (l : NetVarList) : Outcome NetVarList :=
  match op with
  | .create key data => l.createIn parent key data.toList
  | .set key data => l.setIn parent key data.toList
  | .remove key => l.removeIn parent key
  | .removeAll order => l.removeAllIn parent order
  | .clear order => l.clearIn parent order

variable {l : NetVarList}

/-- **With a parent the calls are those of `call`**, and none of them throws. -/
theorem callIn_some (ctx : ListContext) (op : ListOp size) (l : NetVarList) :
    l.callIn (some ctx) op = (.ok (), l.call ctx op) := by
  have hremove : ∀ key (l : NetVarList), l.removeIn (some ctx) key = (.ok (), (l.remove ctx key).2) := by
    intro key l
    unfold removeIn remove
    split_ifs <;> rfl
  cases op with
  | create key data =>
    show l.createIn (some ctx) key data.toList = (.ok (), (l.create ctx key data.toList).2)
    unfold createIn create
    split_ifs <;> rfl
  | set key data =>
    show l.setIn (some ctx) key data.toList = (.ok (), l.set ctx key data.toList)
    unfold setIn set
    split_ifs <;> rfl
  | remove key => exact hremove key l
  | removeAll order => exact throughout_ok (fun key _ => hremove key) l
  | clear order =>
    exact throughout_ok (f := fun l key => (l.removeItem ctx key).2) (fun key _ l => rfl) l

theorem walk_perm (order : List UInt32) (l : NetVarList) : (l.walk order).Perm l.data.keys := by
  rw [walk]
  split_ifs with h
  · exact h
  · exact List.Perm.refl _

theorem walk_empty (h : l.data.keys = []) (order : List UInt32) : l.walk order = [] :=
  List.perm_nil.mp (h ▸ l.walk_perm order)

/-- The first element of a walk that is not empty. -/
theorem walk_cons (h : l.data.keys ≠ []) (order : List UInt32) :
    ∃ key keys, l.walk order = key :: keys ∧ key ∈ l.data := by
  have hperm := l.walk_perm order
  cases hw : l.walk order with
  | nil => exact absurd (List.nil_perm.mp (hw ▸ hperm)) h
  | cons key keys =>
    exact ⟨key, keys, rfl, AList.mem_keys.mpr (hperm.subset (hw ▸ List.mem_cons_self))⟩

theorem callIn_idle {op : ListOp size} (h : Idle l op) (parent : Option ListContext) :
    l.callIn parent op = (.ok (), l) := by
  cases op with
  | create key data => exact if_pos h
  | set key data => exact if_neg h
  | remove key => exact if_neg h
  | removeAll order =>
    show throughout (removeIn parent) (l.walk order) l = _
    rw [walk_empty h]
    rfl
  | clear order =>
    show throughout (removeItemIn parent) (l.walk order) l = _
    rw [walk_empty h]
    rfl

/-- What a list without a manager is left with by the call. -/
def written (l : NetVarList) : ListOp size → NetVarList
  | .create key data | .set key data => l.overwrite key data.toList
  | .remove key => { l with data := l.data.erase key }
  | .removeAll order | .clear order => { l with data := l.data.erase ((l.walk order).headD 0) }

/-- **Without a manager a call that is not idle throws after its first change.** -/
theorem callIn_none {op : ListOp size} (h : ¬ Idle l op) :
    l.callIn none op = (.error invalidObjectManager, l.written op) := by
  cases op with
  | create key data => exact if_neg h
  | set key data => exact if_pos (not_not.mp h)
  | remove key => exact if_pos (not_not.mp h)
  | removeAll order =>
    obtain ⟨key, keys, hw, hkey⟩ := walk_cons h order
    show throughout (removeIn none) (l.walk order) l = (_, { l with data := _ })
    rw [hw, throughout, removeIn, if_pos hkey]
    rfl
  | clear order =>
    obtain ⟨key, keys, hw, -⟩ := walk_cons h order
    show throughout (removeItemIn none) (l.walk order) l = (_, { l with data := _ })
    rw [hw]
    rfl

/-- The call sets an element to the value it has. -/
def Restates (l : NetVarList) : ListOp size → Prop
  | .set key data => l.find key = some data.toList
  | _ => False

theorem find_erase (key k : UInt32) (l : NetVarList) :
    ({ l with data := l.data.erase key } : NetVarList).find k = if k = key then none else l.find k := by
  have helements := congrFun (elements_erase key l) k
  rwa [Op.act_apply] at helements

theorem contents_erase_ne {key : UInt32} (h : key ∈ l.data) :
    ({ l with data := l.data.erase key } : NetVarList).contents ≠ l.contents := by
  intro hsame
  have hfind := (contents_eq_iff.mp hsame).1
  simp only [find_erase, update_eq_self_iff] at hfind
  rw [mem_data_iff, hfind] at h
  exact Bool.false_ne_true h

theorem contents_overwrite_iff {value : Bytes} (h : value.length = l.size) (key : UInt32) :
    (l.overwrite key value).contents = l.contents ↔ l.find key = some value := by
  have hfind : ∀ k, (l.overwrite key value).find k = _ := find_overwrite_sized h key
  rw [contents_eq_iff]
  simp only [hfind, update_eq_self_iff]
  exact and_iff_left rfl

/-- **Which calls that throw leave the contents as they were.** -/
theorem callIn_contents_iff (parent : Option ListContext) (op : ListOp l.size) :
    ((l.callIn parent op).1 ≠ .ok () → (l.callIn parent op).2.contents = l.contents) ↔
      (parent = none → Idle l op ∨ l.Restates op) := by
  cases parent with
  | some ctx => simp [callIn_some]
  | none =>
    rw [imp_iff_right rfl]
    by_cases hidle : Idle l op
    · simp [callIn_idle hidle, hidle]
    · rw [callIn_none hidle, imp_iff_right (by simp), or_iff_right hidle]
      cases op with
      | create key data =>
        refine iff_of_false (fun hsame => hidle ?_) id
        have hfind := (contents_overwrite_iff (by simp) key).mp hsame
        exact mem_data_iff.mpr (by rw [hfind]; rfl)
      | set key data => exact contents_overwrite_iff (by simp) key
      | remove key => exact iff_of_false (contents_erase_ne (not_not.mp hidle)) id
      | removeAll order | clear order =>
        obtain ⟨key, keys, hw, hkey⟩ := walk_cons hidle order
        refine iff_of_false ?_ id
        rw [written, hw]
        exact contents_erase_ne hkey

end NetVarList

/-! ## Controllers whose lists have bindings -/

namespace NetSystem

/-- `DecodeObject` and `FetchObjectList`: what the list a message names reads from its parent, and the
list. -/
def fetchList (target : AssociatedObject) (listID : UInt32) (s : NetSystem) :
    Option (ListContext × NetVarList) :=
  (s.getInstance target.instanceName).bind fun i =>
    (i.getManager target.managerName).bind fun m =>
      (m.getByNetID target.networkCode).bind fun o =>
        o.lists[listID.toNat]?.map fun l =>
          (⟨⟨i.name, m.name, o.netID⟩, m.getPlayers, o.peer, listID⟩, l)

/-- The contents of all lists. -/
def listContents (s : NetSystem) : List (List (List (List ((UInt32 → Option Bytes) × List QueuedPacket)))) :=
  s.instances.map fun i => i.managers.map fun m => m.objects.map fun o => o.lists.map NetVarList.contents

variable {target : AssociatedObject} {listID : UInt32} {s : NetSystem}

theorem findList_eq (target : AssociatedObject) (listID : UInt32) (s : NetSystem) :
    s.findList target listID = (s.fetchList target listID).map Prod.snd := by
  unfold findList fetchList
  cases s.getInstance target.instanceName with
  | none => rfl
  | some i =>
    rw [Option.bind_some, Option.bind_some]
    cases i.getManager target.managerName with
    | none => rfl
    | some m =>
      rw [Option.bind_some, Option.bind_some]
      cases m.getByNetID target.networkCode with
      | none => rfl
      | some o =>
        rw [Option.bind_some, Option.bind_some]
        cases o.lists[listID.toNat]? <;> rfl

theorem forall_fetchList {P : ListContext → NetVarList → Prop} :
    (∀ ctx l, s.fetchList target listID = some (ctx, l) → P ctx l) ↔
      ∀ i, s.getInstance target.instanceName = some i →
        ∀ m, i.getManager target.managerName = some m →
          ∀ o, m.getByNetID target.networkCode = some o →
            ∀ l, o.lists[listID.toNat]? = some l →
              P ⟨⟨i.name, m.name, o.netID⟩, m.getPlayers, o.peer, listID⟩ l := by
  simp only [fetchList, Option.bind_eq_some_iff, Option.map_eq_some_iff, Prod.mk.injEq]
  constructor
  · intro h i hi m hm o ho l hl
    exact h _ l ⟨i, hi, m, hm, o, ho, l, hl, rfl, rfl⟩
  · rintro h _ _ ⟨i, hi, m, hm, o, ho, l, hl, rfl, rfl⟩
    exact h i hi m hm o ho l hl

/-- **A list that is modified changes the contents exactly when its own change.** -/
theorem listContents_modifyList (f : ListContext → NetVarList → NetVarList) :
    (s.modifyList target listID f).listContents = s.listContents ↔
      ∀ ctx l, s.fetchList target listID = some (ctx, l) → (f ctx l).contents = l.contents := by
  rw [forall_fetchList]
  unfold listContents
  rw [map_modifyList_iff]
  exact forall_congr' fun i => imp_congr_right fun _ => forall_congr' fun m => imp_congr_right fun _ =>
    forall_congr' fun o => imp_congr_right fun _ => map_modify_iff

/-- Only what happens to the list counts. -/
theorem modifyList_congr {f g : ListContext → NetVarList → NetVarList}
    (h : ∀ ctx l, s.fetchList target listID = some (ctx, l) → f ctx l = g ctx l) :
    s.modifyList target listID f = s.modifyList target listID g := by
  rw [forall_fetchList] at h
  unfold modifyList modifyInstance
  congr 1
  refine modifyFirst_congr fun i hi => ?_
  unfold VirtualInstance.modifyManager
  congr 1
  refine modifyFirst_congr fun m hm => ?_
  unfold CEntities.modifyObject
  congr 1
  refine modifyFirst_congr fun o ho => ?_
  refine congrArg (fun lists => { o with lists := lists }) (List.ext_getElem? fun j => ?_)
  by_cases hj : listID.toNat = j
  · subst hj
    rw [List.getElem?_modify_eq, List.getElem?_modify_eq]
    cases hl : o.lists[listID.toNat]? with
    | none => rfl
    | some l => exact congrArg some (h i hi m hm o ho l hl)
  · rw [List.getElem?_modify_ne _ _ hj, List.getElem?_modify_ne _ _ hj]

end NetSystem

/-- `bindings` are those of the list an object and a position name. -/
structure EventSystem where
  net : NetSystem
  bindings : AssociatedObject → UInt32 → ListBindings

namespace EventSystem

/-- The list that a message names, with its bindings. -/
def fetch (msg : ListMsg) (s : EventSystem) : Option (ListContext × CNetVarList) :=
  (s.net.fetchList msg.target msg.listID).map fun r => (r.1, ⟨r.2, s.bindings msg.target msg.listID⟩)

/-- `on_remote_add`, `on_remote_update` and `on_remote_remove`. -/
def onRemote (msg : ListMsg) (s : EventSystem) : EventSystem :=
  match s.fetch msg with
  | none => s
  | some (ctx, l) =>
    { net := s.net.modifyList msg.target msg.listID fun _ _ => (l.onRemote ctx msg).base
      bindings := fun target listID =>
        if target = msg.target ∧ listID = msg.listID then (l.onRemote ctx msg).bindings
        else s.bindings target listID }

/-- A handler that does not concern lists. -/
def lift (h : NetSystem → Outcome NetSystem) (s : EventSystem) : Outcome EventSystem :=
  ((h s.net).1, { s with net := (h s.net).2 })

def runHandler (pb : Protobuf) (data : Mem) (dataLen : ℕ) (peer : Peer) (h : Handler)
    (s : EventSystem) : Outcome EventSystem :=
  match h with
  | .onRemoteAdd => (.ok (), s.onRemote (.add (pb.parseAdd (NetSystem.protoBytes data dataLen)).2))
  | .onRemoteUpdate =>
    (.ok (), s.onRemote (.update (pb.parseUpdate (NetSystem.protoBytes data dataLen)).2))
  | .onRemoteRemove =>
    (.ok (), s.onRemote (.remove (pb.parseRemove (NetSystem.protoBytes data dataLen)).2))
  | .handleClientEntSnapshot => s.lift (·.runHandler pb data dataLen peer .handleClientEntSnapshot)
  | .handleEntSnapshot => s.lift (·.runHandler pb data dataLen peer .handleEntSnapshot)
  | .handleEntOwnership => s.lift (·.runHandler pb data dataLen peer .handleEntOwnership)

def processRecv (pb : Protobuf) (data : Mem) (dataLen : ℕ) (peer : Peer) (s : EventSystem) :
    Outcome EventSystem :=
  if !s.net.running then (.ok (), s)
  else if dataLen < 2 then
    (.error "Cannot parse data that has less than the code data type size (out of bounds prevention)",
      s)
  else throughout (runHandler pb data dataLen peer) (s.net.handlersOf (u16Of (data.read 2))) s

def receive (pb : Protobuf) (past : Mem) (peer : Peer) (packet : Bytes) (s : EventSystem) :
    Outcome EventSystem :=
  s.processRecv pb (Mem.ofList packet past) packet.length peer

/-! ### Without a `ScheduleCheck` -/

/-- No list has a `ScheduleCheck`. -/
def Unscheduled (s : EventSystem) : Prop := ∀ target listID, (s.bindings target listID).scheduleCheck = none

variable {s : EventSystem}

theorem fetch_eq_some {msg : ListMsg} {ctx : ListContext} {l : CNetVarList} :
    s.fetch msg = some (ctx, l) ↔ s.net.fetchList msg.target msg.listID = some (ctx, l.base) ∧
      l.bindings = s.bindings msg.target msg.listID := by
  rw [fetch, Option.map_eq_some_iff]
  constructor
  · rintro ⟨⟨ctx, base⟩, h, hl⟩
    obtain ⟨rfl, rfl⟩ := Prod.mk.inj hl
    exact ⟨h, rfl⟩
  · rintro ⟨h, hl⟩
    exact ⟨(ctx, l.base), h, by rw [← hl]⟩

theorem onRemote_none {msg : ListMsg} (h : s.fetch msg = none) : s.onRemote msg = s := by
  rw [onRemote, h]

theorem onRemote_some {msg : ListMsg} {ctx : ListContext} {l : CNetVarList}
    (h : s.fetch msg = some (ctx, l)) : s.onRemote msg =
      { net := s.net.modifyList msg.target msg.listID fun _ _ => (l.onRemote ctx msg).base
        bindings := fun target listID =>
          if target = msg.target ∧ listID = msg.listID then (l.onRemote ctx msg).bindings
          else s.bindings target listID } := by
  rw [onRemote, h]

/-- **Without a `ScheduleCheck` the handlers are those of the `NetSystem`.** -/
theorem onRemote_unscheduled (h : s.Unscheduled) (msg : ListMsg) :
    (s.onRemote msg).net = s.net.onRemote msg ∧ (s.onRemote msg).Unscheduled := by
  cases hf : s.fetch msg with
  | none =>
    have hnone : s.net.findList msg.target msg.listID = none := by
      rw [NetSystem.findList_eq, Option.map_eq_none_iff]
      exact Option.map_eq_none_iff.mp hf
    rw [onRemote_none hf]
    exact ⟨(NetSystem.modifyList_of_none hnone).symm, h⟩
  | some r =>
    obtain ⟨ctx, l⟩ := r
    obtain ⟨hl, hb⟩ := fetch_eq_some.mp hf
    have hcheck : l.bindings.scheduleCheck = none := hb ▸ h msg.target msg.listID
    rw [onRemote_some hf]
    refine ⟨?_, fun target listID => ?_⟩
    · show s.net.modifyList msg.target msg.listID (fun _ _ => (l.onRemote ctx msg).base) =
        s.net.modifyList msg.target msg.listID fun ctx l => l.onRemote ctx msg
      refine NetSystem.modifyList_congr ((forall_found hl).mpr ?_)
      exact CNetVarList.base_onRemote_unscheduled hcheck ctx msg
    · dsimp only
      split_ifs
      · exact (CNetVarList.scheduleCheck_onRemote ctx msg l).trans hcheck
      · exact h target listID

/-- **Without a `ScheduleCheck` a packet does what it does to the `NetSystem`.** -/
theorem net_receive_unscheduled (h : s.Unscheduled) (pb : Protobuf) (past : Mem) (peer : Peer)
    (packet : Bytes) : Prod.map id net (s.receive pb past peer packet) =
      s.net.receive pb past peer packet := by
  rw [receive, processRecv, NetSystem.receive, NetSystem.processRecv]
  split_ifs
  · rfl
  · rfl
  · refine throughout_view (fun handler s hs => ?_) _ h
    cases handler with
    | onRemoteAdd | onRemoteUpdate | onRemoteRemove =>
      exact ⟨congrArg (Prod.mk _) (onRemote_unscheduled hs _).1, (onRemote_unscheduled hs _).2⟩
    | handleClientEntSnapshot | handleEntSnapshot | handleEntOwnership => exact ⟨rfl, hs⟩

end EventSystem

/-! ## Rejected messages -/

/-- Why a message cannot be done: it names no list, or a key that is not there, or its value has not the
size of an element. -/
inductive Rejection where
  | address
  | key
  | size
  deriving DecidableEq, Repr

def NetVarList.rejection (msg : ListMsg) (l : NetVarList) : Option Rejection :=
  match msg with
  | .add m => if m.value.length = l.size then none else some .size
  | .update m =>
    if m.key ∈ l.data then if m.value.length = l.size then none else some .size else some .key
  | .remove m => if m.key ∈ l.data then none else some .key

def EventSystem.rejection (msg : ListMsg) (s : EventSystem) : Option Rejection :=
  match s.fetch msg with
  | none => some .address
  | some (_, l) => l.base.rejection msg

namespace CNetVarList

/-- An addition finds its key, and of a removal the relay is put off or has nobody to go to. -/
def LeavesAlone (ctx : ListContext) (msg : ListMsg) (l : CNetVarList) : Prop :=
  match msg with
  | .add m => m.key ∈ l.base.data
  | .update _ => True
  | .remove _ => ctx.players.length ≤ 1 ∨ l.bindings.defers = true

variable {ctx : ListContext} {l : CNetVarList} {msg : ListMsg}

/-- An addition of the wrong size calls nobody. -/
theorem base_onRemote_missized {m : MapAdd} (h : m.value.length ≠ l.base.size) (ctx : ListContext) :
    (l.onRemote ctx (.add m)).base = l.base.onRemote ctx (.add m) :=
  (congrArg base (if_neg h)).trans (if_neg h).symm

/-- It leaves the contents as they were when its key is there. -/
theorem contents_missized_iff {m : MapAdd} (h : m.value.length ≠ l.base.size) (ctx : ListContext) :
    (l.onRemote ctx (.add m)).base.contents = l.base.contents ↔ m.key ∈ l.base.data := by
  rw [base_onRemote_missized h, NetVarList.onRemote_contents_iff]
  exact iff_of_eq (if_neg h)

/-- **Which rejected messages leave the contents of the list as they were.** -/
theorem rejected_contents_iff (hrejected : l.base.rejection msg ≠ none) :
    (l.onRemote ctx msg).base.contents = l.base.contents ↔ l.LeavesAlone ctx msg := by
  cases msg with
  | add m =>
    have hsize : m.value.length ≠ l.base.size := fun h => hrejected (if_pos h)
    exact contents_missized_iff hsize ctx
  | update m =>
    have hsame : l.onRemote ctx (.update m) = l := by
      refine if_neg fun h => hrejected ?_
      exact (if_pos h.1).trans (if_pos h.2)
    rw [hsame]
    exact iff_of_true rfl trivial
  | remove m =>
    have hkey : m.key ∉ l.base.data := fun h => hrejected (if_pos h)
    have hfind : ∀ k, (l.onRemote ctx (.remove m)).base.find k = l.base.find k := by
      intro k
      have herase : (l.base.onRemote ctx (.remove m)).find k = _ := NetVarList.find_onRemoteRemove m k
      rw [NetVarList.find_of_bare (bare_onRemote ctx (.remove m) l), herase]
      by_cases hk : k = m.key
      · rw [if_pos hk, hk, eq_comm, ← Option.not_isSome_iff_eq_none, ← NetVarList.mem_data_iff]
        exact hkey
      · rw [if_neg hk]
    have hqueue : (l.onRemote ctx (.remove m)).base.updateQueue =
        if l.bindings.defers then l.base.updateQueue
        else (l.base.dispatchRemove ctx m.key).updateQueue := updateQueue_dispatch ctx .remove m.key l
    rw [NetVarList.contents_eq_iff, and_iff_right hfind, hqueue, LeavesAlone]
    cases l.bindings.defers with
    | true => simp
    | false =>
      have hrelay : (l.base.dispatchRemove ctx m.key).updateQueue = l.base.updateQueue ↔
          ctx.players.length ≤ 1 := NetVarList.updateQueue_relay ctx _ _
      simpa using hrelay

end CNetVarList

namespace EventSystem

variable {s : EventSystem} {msg : ListMsg} {ctx : ListContext} {l : CNetVarList}

/-- The lists of a controller change with the one a message names. -/
theorem listContents_onRemote (h : s.fetch msg = some (ctx, l)) :
    (s.onRemote msg).net.listContents = s.net.listContents ↔
      (l.onRemote ctx msg).base.contents = l.base.contents := by
  obtain ⟨hl, -⟩ := fetch_eq_some.mp h
  rw [onRemote_some h, NetSystem.listContents_modifyList]
  exact forall_found hl

theorem rejected_onRemote_iff (s : EventSystem) (msg : ListMsg) :
    (s.rejection msg ≠ none → (s.onRemote msg).net.listContents = s.net.listContents) ↔
      ∀ ctx l, s.fetch msg = some (ctx, l) → l.base.rejection msg ≠ none → l.LeavesAlone ctx msg := by
  cases hf : s.fetch msg with
  | none => simp [onRemote_none hf]
  | some r =>
    obtain ⟨ctx, l⟩ := r
    have hrejection : s.rejection msg = l.base.rejection msg := by rw [rejection, hf]
    rw [hrejection, listContents_onRemote hf]
    refine Iff.trans ?_ (forall_found rfl).symm
    exact forall_congr' fun hrejected => CNetVarList.rejected_contents_iff hrejected

end EventSystem

/-- **Which failures leave everything as it was.** A call throws without a trace when it set an element
to its own value; a message that is rejected leaves the lists alone when it finds none, when it is an
update, when it adds a key that is there, and when the relay of its removal is put off or has nobody to
go to. -/
theorem failures_iff (parent : Option ListContext) (l : NetVarList) (op : ListOp l.size)
    (s : EventSystem) (msg : ListMsg) :
    (((l.callIn parent op).1 ≠ .ok () → (l.callIn parent op).2.contents = l.contents) ↔
      (parent = none → Idle l op ∨ l.Restates op)) ∧
    ((s.rejection msg ≠ none → (s.onRemote msg).net.listContents = s.net.listContents) ↔
      ∀ ctx l, s.fetch msg = some (ctx, l) → l.base.rejection msg ≠ none → l.LeavesAlone ctx msg) :=
  ⟨NetVarList.callIn_contents_iff parent op, EventSystem.rejected_onRemote_iff s msg⟩

/-- Without a manager a new element is made, and nobody hears of it. -/
theorem not_failures_create : ¬ ∀ (parent : Option ListContext) (l : NetVarList) (op : ListOp l.size)
    (s : EventSystem) (msg : ListMsg),
    ((l.callIn parent op).1 ≠ .ok () → (l.callIn parent op).2.contents = l.contents) ∧
    (s.rejection msg ≠ none → (s.onRemote msg).net.listContents = s.net.listContents) := by
  intro h
  have hcall := (h none emptyList (.create 1 (Vector.replicate 1 3)) ⟨{ server := true }, fun _ _ => {}⟩
    (.remove ⟨⟨[], [], 0⟩, 0, 0⟩)).1
  have hsame := hcall (by decide)
  have hfind := (NetVarList.contents_eq_iff.mp hsame).1 1
  exact absurd hfind (by decide)

end Nettik
