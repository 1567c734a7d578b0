import Nettik.Lib.Replay
import Nettik.World.Recv

/-!
# Operations on lists

What the application and the messages of others do to a list, and how a copy follows.

* `find_onRemoteAdd`, `find_onRemoteUpdate`, `find_onRemoteRemove`: the elements after a message;
  `elements_onRemote`: a message is an operation on the map of elements;
* `create`, `set`, `remove`, `removeAll`, `clear`: the operations of the application, `ListOp` a call of
  one of them;
* `Logs`: the messages an operation queues describe what it did, **`logs_run`**;
* **`catch_up`**: a copy as old as any moment of a run catches up with the messages of the whole run.
-/

namespace Nettik

open ByteMem Loops Replay

namespace NetVarList

/-! ## The elements after a message -/

variable {ctx : ListContext} {l : NetVarList}

theorem mem_data_iff {key : UInt32} : key ∈ l.data ↔ (l.find key).isSome := by
  rw [find, Option.isSome_map, AList.lookup_isSome]

theorem subscript_of_mem {key : UInt32} (h : key ∈ l.data) : l.subscript key = l := by
  rw [subscript, if_pos h]

theorem mem_subscript (key : UInt32) (l : NetVarList) : key ∈ (l.subscript key).data := by
  by_cases h : key ∈ l.data
  · rwa [subscript_of_mem h]
  · show key ∈ if key ∈ l.data then l.data else l.data.insert key l.initial
    rw [if_neg h]
    exact (AList.mem_insert _).mpr (Or.inl rfl)

theorem mem_overwrite (key : UInt32) (value : Bytes) (l : NetVarList) :
    key ∈ (l.overwrite key value).data :=
  (AList.mem_insert _).mpr (Or.inl rfl)

@[simp] theorem find_relay (ctx : ListContext) (msg : ListMsg) (l : NetVarList) (k : UInt32) :
    (l.relay ctx msg).find k = l.find k := by
  unfold relay
  split_ifs <;> rfl

theorem updateQueue_relay (ctx : ListContext) (msg : ListMsg) (l : NetVarList) :
    (l.relay ctx msg).updateQueue = l.updateQueue ↔ ctx.players.length ≤ 1 := by
  unfold relay
  split_ifs with h <;> simp [h]

theorem onRemoteAdd_sized {m : MapAdd} (h : m.value.length = l.size) :
    l.onRemoteAdd ctx m = ((l.subscript m.key).overwrite m.key m.value).relay ctx
      (.add (((l.subscript m.key).overwrite m.key m.value).construct ctx m.key)) := by
  rw [onRemoteAdd, if_pos h, dispatchAdd, subscript_of_mem (mem_overwrite _ _ _)]

theorem onRemoteUpdate_present {m : MapUpdate} (hk : m.key ∈ l.data) (h : m.value.length = l.size) :
    l.onRemoteUpdate ctx m =
      (l.overwrite m.key m.value).relay ctx
        (.update ((l.overwrite m.key m.value).construct ctx m.key)) := by
  rw [onRemoteUpdate, if_pos ⟨hk, h⟩, dispatchUpdate, subscript_of_mem (mem_overwrite _ _ _)]

theorem find_onRemoteAdd {m : MapAdd} (h : m.value.length = l.size) (k : UInt32) :
    (l.onRemoteAdd ctx m).find k = if k = m.key then some m.value else l.find k := by
  have hover := find_overwrite_sized (l := l.subscript m.key) h m.key k
  rw [onRemoteAdd_sized h, find_relay, hover]
  by_cases hk : k = m.key
  · rw [if_pos hk, if_pos hk]
  · rw [if_neg hk, if_neg hk, find_subscript hk]

theorem find_onRemoteUpdate {m : MapUpdate} (h : m.value.length = l.size) (k : UInt32) :
    (l.onRemoteUpdate ctx m).find k =
      if k = m.key ∧ (l.find k).isSome then some m.value else l.find k := by
  by_cases hk : m.key ∈ l.data
  · rw [onRemoteUpdate_present hk h, find_relay, find_overwrite_sized h]
    by_cases e : k = m.key
    · subst e
      rw [if_pos rfl, if_pos ⟨rfl, mem_data_iff.mp hk⟩]
    · rw [if_neg e, if_neg fun hc => e hc.1]
  · rw [onRemoteUpdate, if_neg fun hc => hk hc.1, if_neg]
    rintro ⟨rfl, hsome⟩
    exact hk (mem_data_iff.mpr hsome)

theorem find_onRemoteRemove (m : MapRemove) (k : UInt32) :
    (l.onRemoteRemove ctx m).find k = if k = m.key then none else l.find k := by
  by_cases e : k = m.key
  · subst e
    rw [if_pos rfl, find, onRemoteRemove, AList.lookup_erase]
    rfl
  · have hother : ((l.dispatchRemove ctx m.key).data.erase m.key).lookup k =
        (l.dispatchRemove ctx m.key).data.lookup k := AList.lookup_erase_ne e
    have hfind : (l.dispatchRemove ctx m.key).find k = l.find k := by
      rw [dispatchRemove, find_relay, find_subscript e]
    rw [if_neg e, ← hfind]
    exact congrArg (Option.map Vector.toList) hother

/-! ## Messages as operations on the elements -/

/-- The elements of a list, by key. -/
def elements (l : NetVarList) : UInt32 → Option Bytes := fun k => l.find k

end NetVarList

namespace ListMsg

def key : ListMsg → UInt32
  | .add m | .update m => m.key
  | .remove m => m.key

/-- What a message does to a map. -/
def op : ListMsg → Op UInt32 Bytes
  | .add m => .put m.key m.value
  | .update m => .update m.key m.value
  | .remove m => .erase m.key

/-- The value has the size of an element. -/
def Sized (size : ℕ) : ListMsg → Prop
  | .add m | .update m => m.value.length = size
  | .remove _ => True

@[simp] theorem key_op (msg : ListMsg) : msg.op.key = msg.key := by
  cases msg <;> rfl

end ListMsg

namespace NetVarList

variable {ctx : ListContext} {l : NetVarList}

@[simp] theorem size_relay (ctx : ListContext) (msg : ListMsg) (l : NetVarList) :
    (l.relay ctx msg).size = l.size := by
  unfold relay
  split_ifs <;> rfl

@[simp] theorem size_onRemote (ctx : ListContext) (msg : ListMsg) (l : NetVarList) :
    (l.onRemote ctx msg).size = l.size := by
  cases msg with
  | add m =>
    show (l.onRemoteAdd ctx m).size = _
    unfold onRemoteAdd dispatchAdd
    split_ifs
    · rw [size_relay]
      rfl
    · rfl
  | update m =>
    show (l.onRemoteUpdate ctx m).size = _
    unfold onRemoteUpdate dispatchUpdate
    split_ifs
    · rw [size_relay]
      rfl
    · rfl
  | remove m =>
    show (l.dispatchRemove ctx m.key).size = _
    unfold dispatchRemove
    rw [size_relay]
    rfl

/-- **A message is an operation on the elements.** -/
theorem elements_onRemote {msg : ListMsg} (h : msg.Sized l.size) :
    (l.onRemote ctx msg).elements = msg.op.act l.elements := by
  funext k
  rw [Op.act_apply, ListMsg.key_op]
  cases msg with
  | add m => exact find_onRemoteAdd h k
  | update m =>
    have hfind : (l.onRemoteUpdate ctx m).find k = _ := find_onRemoteUpdate h k
    show (l.onRemoteUpdate ctx m).find k = if k = m.key then (l.find k).map fun _ => m.value else l.find k
    rw [hfind]
    by_cases hk : k = m.key
    · cases hl : l.find k <;> simp [hk]
    · rw [if_neg hk, if_neg fun hc => hk hc.1]
  | remove m => exact find_onRemoteRemove m k

/-! ## Passing messages on -/

theorem updateQueue_relay_many (h : 1 < ctx.players.length) (msg : ListMsg) (l : NetVarList) :
    (l.relay ctx msg).updateQueue = l.updateQueue ++ [⟨msg, ctx.peer, []⟩] := by
  rw [relay, if_neg (by omega)]

/-- With one player or none, nothing is passed on. -/
theorem updateQueue_onRemote (h : ctx.players.length ≤ 1) (msg : ListMsg) (l : NetVarList) :
    (l.onRemote ctx msg).updateQueue = l.updateQueue := by
  have hrelay : ∀ (msg : ListMsg) (l : NetVarList), (l.relay ctx msg).updateQueue = l.updateQueue :=
    fun msg l => (updateQueue_relay ctx msg l).mpr h
  cases msg with
  | add m =>
    show (l.onRemoteAdd ctx m).updateQueue = _
    unfold onRemoteAdd dispatchAdd
    split_ifs
    · rw [hrelay]
      rfl
    · rfl
  | update m =>
    show (l.onRemoteUpdate ctx m).updateQueue = _
    unfold onRemoteUpdate dispatchUpdate
    split_ifs
    · rw [hrelay]
      rfl
    · rfl
  | remove m =>
    show (l.dispatchRemove ctx m.key).updateQueue = _
    unfold dispatchRemove
    rw [hrelay]
    rfl

/-- **With several players, what is passed on says what the message did.** -/
theorem onRemote_passesOn (hplayers : 1 < ctx.players.length) {msg : ListMsg} (h : msg.Sized l.size) :
    ∃ ms : List ListMsg,
      (l.onRemote ctx msg).updateQueue = l.updateQueue ++ ms.map (fun m => ⟨m, ctx.peer, []⟩) ∧
      (l.onRemote ctx msg).elements = replay l.elements (ms.map ListMsg.op) ∧
      ∀ m ∈ ms, m.Sized l.size := by
  -- the element that is passed on is the one that was received
  have hvalue : ∀ (l : NetVarList) (key : UInt32) {value : Bytes}, value.length = l.size →
      (l.overwrite key value).construct ctx key = ⟨ctx.object, key, value, ctx.listID⟩ := by
    intro l key value hsize
    rw [construct, find_overwrite_sized hsize, if_pos rfl, Option.getD_some]
  have helements : (l.onRemote ctx msg).elements = _ := elements_onRemote h
  cases msg with
  | add m =>
    have hadd : l.onRemoteAdd ctx m = _ := onRemoteAdd_sized h
    rw [hvalue (l.subscript m.key) m.key h] at hadd
    refine ⟨[.add ⟨ctx.object, m.key, m.value, ctx.listID⟩], ?_, helements,
      by simpa [ListMsg.Sized] using h⟩
    show (l.onRemoteAdd ctx m).updateQueue = _
    rw [hadd, updateQueue_relay_many hplayers]
    rfl
  | update m =>
    by_cases hk : m.key ∈ l.data
    · have hupdate : l.onRemoteUpdate ctx m = _ := onRemoteUpdate_present hk h
      rw [hvalue l m.key h] at hupdate
      refine ⟨[.update ⟨ctx.object, m.key, m.value, ctx.listID⟩], ?_, helements,
        by simpa [ListMsg.Sized] using h⟩
      show (l.onRemoteUpdate ctx m).updateQueue = _
      rw [hupdate, updateQueue_relay_many hplayers]
      rfl
    · have hsame : l.onRemote ctx (.update m) = l := if_neg fun hc => hk hc.1
      rw [hsame]
      exact ⟨[], by simp, rfl, by simp⟩
  | remove m =>
    refine ⟨[.remove ⟨ctx.object, m.key, ctx.listID⟩], ?_, helements, by simp [ListMsg.Sized]⟩
    show (l.dispatchRemove ctx m.key).updateQueue = _
    rw [dispatchRemove, updateQueue_relay_many hplayers]
    rfl

/-! ## The operations of the application -/

/-- Queue a packet that goes to everybody. -/
def schedule (msg : ListMsg) (l : NetVarList) : NetVarList :=
  { l with updateQueue := l.updateQueue ++ [⟨msg, none, []⟩] }

/-- The element at the key is returned, also when it was there before. -/
def create (ctx : ListContext) (key : UInt32) (data : Bytes) (l : NetVarList) :
    Option Bytes × NetVarList :=
  if key ∈ l.data then (l.find key, l)
  else ((l.overwrite key data).find key,
    (l.overwrite key data).schedule (.add ⟨ctx.object, key, data, ctx.listID⟩))

/-- `remove` of an iterator. -/
def removeItem (ctx : ListContext) (key : UInt32) (l : NetVarList) : Bool × NetVarList :=
  (true, { l with data := l.data.erase key }.schedule (.remove ⟨ctx.object, key, ctx.listID⟩))

def remove (ctx : ListContext) (key : UInt32) (l : NetVarList) : Bool × NetVarList :=
  if key ∈ l.data then l.removeItem ctx key else (false, l)

def set (ctx : ListContext) (key : UInt32) (data : Bytes) (l : NetVarList) : NetVarList :=
  if key ∈ l.data then
    (l.overwrite key data).schedule (.update ⟨ctx.object, key, data, ctx.listID⟩)
  else l

/-- The order a walk over the container takes. The container promises none: `order` is any order of its
keys. -/
def walk (order : List UInt32) (l : NetVarList) : List UInt32 :=
  if order.Perm l.data.keys then order else l.data.keys

/-- The walk goes over a copy. -/
def removeAll (ctx : ListContext) (order : List UInt32) (l : NetVarList) : NetVarList :=
  (l.walk order).foldl (fun l key => (l.remove ctx key).2) l

/-- The first element is removed until there is none. -/
def clear (ctx : ListContext) (order : List UInt32) (l : NetVarList) : NetVarList :=
  (l.walk order).foldl (fun l key => (l.removeItem ctx key).2) l

end NetVarList

/-- The peers a packet is sent to: without any, the first peer of the controller. -/
def QueuedPacket.dispatch (firstPeer : Option Peer) (q : QueuedPacket) : List (Peer × ListMsg) :=
  (if q.peers.isEmpty then firstPeer.toList else q.peers).map fun p => (p, q.msg)

/-- A call on a list of elements of `size` bytes. -/
inductive ListOp (size : ℕ) where
  | create (key : UInt32) (data : Blob size)
  | set (key : UInt32) (data : Blob size)
  | remove (key : UInt32)
  | removeAll (order : List UInt32)
  | clear (order : List UInt32)
  deriving DecidableEq, Repr

namespace NetVarList

variable {size : ℕ} {ctx : ListContext} {l : NetVarList}

def call (ctx : ListContext) (l : NetVarList) : ListOp size → NetVarList
  | .create key data => (l.create ctx key data.toList).2
  | .set key data => l.set ctx key data.toList
  | .remove key => (l.remove ctx key).2
  | .removeAll order => l.removeAll ctx order
  | .clear order => l.clear ctx order

/-- A sequence of calls. -/
def run (ctx : ListContext) (l : NetVarList) (ops : List (ListOp size)) : NetVarList :=
  ops.foldl (fun l op => l.call ctx op) l

/-! ## Sending -/

/-- Every queued packet gets the players it is not kept from. -/
def sendDelta (players : List Peer) (l : NetVarList) : NetVarList :=
  { l with updateQueue := l.updateQueue.map fun q =>
      { q with peers := q.peers ++ players.filter fun p => some p != q.filter } }

/-- Clearing the queue dispatches its packets. -/
def flush (firstPeer : Option Peer) (l : NetVarList) : NetVarList × List (Peer × ListMsg) :=
  ({ l with updateQueue := [] }, l.updateQueue.flatMap (QueuedPacket.dispatch firstPeer))

/-- `UpdateListDelta`, for one list. -/
def updateListDelta (players : List Peer) (firstPeer : Option Peer) (l : NetVarList) :
    NetVarList × List (Peer × ListMsg) :=
  (l.sendDelta players).flush firstPeer

/-! ## Logs -/

/-- From `l` to `l'` the messages `ms` were queued, for every peer, and they say what happened. -/
structure Logs (ctx : ListContext) (l l' : NetVarList) (ms : List ListMsg) : Prop where
  size_eq : l'.size = l.size
  queue : l'.updateQueue = l.updateQueue ++ ms.map fun msg => ⟨msg, none, []⟩
  elements : l'.elements = replay l.elements (ms.map ListMsg.op)
  grounded : Grounded l.elements (ms.map ListMsg.op)
  sized : ∀ msg ∈ ms, msg.Sized l.size
  addressed : ∀ msg ∈ ms, msg.target = ctx.object ∧ msg.listID = ctx.listID

namespace Logs

variable {l' l'' : NetVarList} {ms ms' : List ListMsg}

theorem refl (ctx : ListContext) (l : NetVarList) : Logs ctx l l [] where
  size_eq := rfl
  queue := by simp
  elements := rfl
  grounded := trivial
  sized msg h := absurd h (by simp)
  addressed msg h := absurd h (by simp)

theorem trans (h : Logs ctx l l' ms) (h' : Logs ctx l' l'' ms') : Logs ctx l l'' (ms ++ ms') where
  size_eq := h'.size_eq.trans h.size_eq
  queue := by rw [h'.queue, h.queue, List.map_append, List.append_assoc]
  elements := by rw [h'.elements, h.elements, List.map_append, replay_append]
  grounded := by
    rw [List.map_append, grounded_append, ← h.elements]
    exact ⟨h.grounded, h'.grounded⟩
  sized msg hmsg := by
    rcases List.mem_append.mp hmsg with hmsg | hmsg
    · exact h.sized msg hmsg
    · exact h.size_eq ▸ h'.sized msg hmsg
  addressed msg hmsg := by
    rcases List.mem_append.mp hmsg with hmsg | hmsg
    · exact h.addressed msg hmsg
    · exact h'.addressed msg hmsg

/-- A loop of logged steps. -/
theorem foldl {α : Type} {f : NetVarList → α → NetVarList} {as : List α}
    (hf : ∀ l : NetVarList, l.size = size → ∀ a, ∃ ms, Logs ctx l (f l a) ms) (hl : l.size = size) :
    ∃ ms, Logs ctx l (as.foldl f l) ms := by
  induction as generalizing l with
  | nil => exact ⟨[], refl ctx l⟩
  | cons a as ih =>
    obtain ⟨ms, h⟩ := hf l hl a
    obtain ⟨ms', h'⟩ := ih (h.size_eq.trans hl)
    exact ⟨ms ++ ms', h.trans h'⟩

/-- One change with its message. -/
theorem schedule {msg : ListMsg} {d : AList fun _ : UInt32 => Blob l.size}
    (hsized : msg.Sized l.size) (htarget : msg.target = ctx.object) (hid : msg.listID = ctx.listID)
    (hfinds : msg.op.Finds l.elements)
    (helements : { l with data := d }.elements = msg.op.act l.elements) :
    Logs ctx l ({ l with data := d }.schedule msg) [msg] where
  size_eq := rfl
  queue := rfl
  elements := helements
  grounded := ⟨hfinds, trivial⟩
  sized msg' h := by rwa [List.mem_singleton.mp h]
  addressed msg' h := by
    rw [List.mem_singleton.mp h]
    exact ⟨htarget, hid⟩

end Logs

theorem elements_overwrite {value : Bytes} (h : value.length = l.size) (key : UInt32) :
    (l.overwrite key value).elements = (Op.put key value).act l.elements := by
  funext k
  rw [Op.act_apply]
  exact find_overwrite_sized h key k

theorem elements_erase (key : UInt32) (l : NetVarList) :
    ({ l with data := l.data.erase key } : NetVarList).elements = (Op.erase key).act l.elements := by
  funext k
  rw [Op.act_apply]
  show _ = if k = key then none else l.find k
  by_cases hk : k = key
  · subst hk
    rw [if_pos rfl, elements, find, AList.lookup_erase]
    rfl
  · have hother : (l.data.erase key).lookup k = l.data.lookup k := AList.lookup_erase_ne hk
    rw [if_neg hk]
    exact congrArg (Option.map Vector.toList) hother

/-- An update of a key that is there is an addition. -/
theorem act_update_eq {m : UInt32 → Option Bytes} {key : UInt32} (h : (m key).isSome) (value : Bytes) :
    (Op.update key value).act m = (Op.put key value).act m := by
  obtain ⟨old, hold⟩ := Option.isSome_iff_exists.mp h
  simp [Op.act, Op.key, Op.effect, hold]

theorem logs_create (key : UInt32) {data : Bytes} (h : data.length = l.size) :
    ∃ ms, Logs ctx l (l.create ctx key data).2 ms := by
  unfold create
  split_ifs with hk
  · exact ⟨[], Logs.refl ctx l⟩
  · exact ⟨_, Logs.schedule h rfl rfl trivial (elements_overwrite h key)⟩

theorem logs_set (key : UInt32) {data : Bytes} (h : data.length = l.size) :
    ∃ ms, Logs ctx l (l.set ctx key data) ms := by
  unfold set
  split_ifs with hk
  · have hfinds : (l.elements key).isSome := mem_data_iff.mp hk
    refine ⟨_, Logs.schedule h rfl rfl hfinds ?_⟩
    exact (elements_overwrite h key).trans (act_update_eq hfinds data).symm
  · exact ⟨[], Logs.refl ctx l⟩

theorem logs_removeItem (ctx : ListContext) (key : UInt32) (l : NetVarList) :
    ∃ ms, Logs ctx l (l.removeItem ctx key).2 ms :=
  ⟨_, Logs.schedule trivial rfl rfl trivial (elements_erase key l)⟩

theorem logs_remove (ctx : ListContext) (key : UInt32) (l : NetVarList) :
    ∃ ms, Logs ctx l (l.remove ctx key).2 ms := by
  unfold remove
  split_ifs with hk
  · exact logs_removeItem ctx key l
  · exact ⟨[], Logs.refl ctx l⟩

/-- **Every call queues what it did.** -/
theorem logs_call (ctx : ListContext) (hl : l.size = size) (op : ListOp size) :
    ∃ ms, Logs ctx l (l.call ctx op) ms := by
  cases op with
  | create key data => exact logs_create key (by simp [hl])
  | set key data => exact logs_set key (by simp [hl])
  | remove key => exact logs_remove ctx key l
  | removeAll order => exact Logs.foldl (fun l _ key => logs_remove ctx key l) hl
  | clear order => exact Logs.foldl (fun l _ key => logs_removeItem ctx key l) hl

theorem logs_run (ctx : ListContext) (hl : l.size = size) (ops : List (ListOp size)) :
    ∃ ms, Logs ctx l (l.run ctx ops) ms :=
  Logs.foldl (fun _ hl op => logs_call ctx hl op) hl

end NetVarList

/-! ## Catching up -/

theorem CEntities.getByNetID_modifyObject {id : UInt32} {f : NetObject → NetObject}
    (hf : ∀ o, (f o).netID = o.netID) (m : CEntities) :
    (m.modifyObject id f).getByNetID id = (m.getByNetID id).map f :=
  find?_modifyFirst_self (fun o => by rw [hf]) m.objects

theorem VirtualInstance.getManager_modifyManager {name : Bytes} {f : CEntities → CEntities}
    (hf : ∀ m, (f m).name = m.name) (i : VirtualInstance) :
    (i.modifyManager name f).getManager name = (i.getManager name).map f :=
  find?_modifyFirst_self (fun m => by rw [hf]) i.managers

namespace NetSystem

variable {s : NetSystem} {target : AssociatedObject} {listID : UInt32} {l : NetVarList}

theorem getInstance_modifyInstance {name : Bytes} {f : VirtualInstance → VirtualInstance}
    (hf : ∀ i, (f i).name = i.name) (s : NetSystem) :
    (s.modifyInstance name f).getInstance name = (s.getInstance name).map f :=
  find?_modifyFirst_self (fun i => by rw [hf]) s.instances

/-- **A list message reaches the list it names.** -/
theorem findList_onRemote {msg : ListMsg} (htarget : msg.target = target) (hid : msg.listID = listID)
    (h : s.findList target listID = some l) :
    ∃ ctx, (s.onRemote msg).findList target listID = some (l.onRemote ctx msg) := by
  subst htarget hid
  simp only [findList, Option.bind_eq_some_iff] at h
  obtain ⟨o, ⟨m, ⟨i, hi, hm⟩, ho⟩, hl⟩ := h
  refine ⟨⟨⟨i.name, m.name, o.netID⟩, m.getPlayers, o.peer, msg.listID⟩, ?_⟩
  rw [findList, onRemote, modifyList, getInstance_modifyInstance (fun _ => by rfl), hi, Option.map_some,
    Option.bind_some, VirtualInstance.getManager_modifyManager (fun _ => by rfl), hm, Option.map_some,
    Option.bind_some, CEntities.getByNetID_modifyObject (fun _ => by rfl), ho, Option.map_some,
    Option.bind_some]
  simp [hl]

/-- A copy takes messages that name it one after the other. -/
theorem findList_foldl_onRemote {ms : List ListMsg}
    (haddress : ∀ msg ∈ ms, msg.target = target ∧ msg.listID = listID)
    (hsized : ∀ msg ∈ ms, msg.Sized l.size) (h : s.findList target listID = some l) :
    ∃ l', (ms.foldl (fun s msg => s.onRemote msg) s).findList target listID = some l' ∧
      l'.elements = replay l.elements (ms.map ListMsg.op) := by
  induction ms generalizing s l with
  | nil => exact ⟨l, h, rfl⟩
  | cons msg ms ih =>
    obtain ⟨htarget, hid⟩ := haddress msg List.mem_cons_self
    obtain ⟨ctx, hnext⟩ := findList_onRemote htarget hid h
    have hrest : ∀ msg' ∈ ms, msg'.Sized (l.onRemote ctx msg).size := by
      intro msg' h'
      rw [NetVarList.size_onRemote]
      exact hsized msg' (List.mem_cons_of_mem _ h')
    obtain ⟨l', hl', helements⟩ := ih (fun msg' h' => haddress msg' (List.mem_cons_of_mem _ h')) hrest
      hnext
    refine ⟨l', hl', ?_⟩
    rw [helements, NetVarList.elements_onRemote (hsized msg List.mem_cons_self)]
    rfl

end NetSystem

/-- **A copy catches up**, whatever moment of the run it reflects: the messages queued in the whole run,
in their order, leave it with the final elements. -/
theorem catch_up (ctx : ListContext) {l : NetVarList} (ops : List (ListOp l.size)) :
    ∃ Q : List QueuedPacket, (l.run ctx ops).updateQueue = l.updateQueue ++ Q ∧
      ∀ (i : ℕ) (c : NetSystem) (copy : NetVarList),
        c.findList ctx.object ctx.listID = some copy → copy.size = l.size →
        (∀ k, copy.find k = (l.run ctx (ops.take i)).find k) →
        ∃ copy', (Q.foldl (fun c q => c.onRemote q.msg) c).findList ctx.object ctx.listID = some copy' ∧
          ∀ k, copy'.find k = (l.run ctx ops).find k := by
  -- the log of the run, cut at any moment
  have hcut : ∀ i, ∃ ms ms', NetVarList.Logs ctx l (l.run ctx (ops.take i)) ms ∧
      NetVarList.Logs ctx l (l.run ctx ops) (ms ++ ms') := by
    intro i
    obtain ⟨ms, h⟩ := NetVarList.logs_run ctx rfl (ops.take i)
    obtain ⟨ms', h'⟩ := NetVarList.logs_run ctx h.size_eq (ops.drop i)
    refine ⟨ms, ms', h, ?_⟩
    have hrun : (l.run ctx (ops.take i)).run ctx (ops.drop i) = l.run ctx ops := by
      rw [NetVarList.run, NetVarList.run, ← List.foldl_append, List.take_append_drop]
      rfl
    rw [← hrun]
    exact h.trans h'
  obtain ⟨ms, log⟩ := NetVarList.logs_run ctx rfl ops
  refine ⟨_, log.queue, fun i c copy hcopy hsize hfind => ?_⟩
  obtain ⟨ms₁, ms₂, hprefix, hlog⟩ := hcut i
  have hms : ms = ms₁ ++ ms₂ := by
    have hqueue := List.append_cancel_left (log.queue.symm.trans hlog.queue)
    have hmsg := congrArg (List.map QueuedPacket.msg) hqueue
    simpa [Function.comp_def] using hmsg
  subst hms
  have hsized : ∀ msg ∈ ms₁ ++ ms₂, msg.Sized copy.size := by
    rw [hsize]
    exact hlog.sized
  obtain ⟨copy', hcopy', helements⟩ :=
    NetSystem.findList_foldl_onRemote hlog.addressed hsized hcopy
  refine ⟨copy', ?_, fun k => ?_⟩
  · rw [List.foldl_map]
    exact hcopy'
  · have hstart : copy.elements = (l.run ctx (ops.take i)).elements := funext hfind
    show copy'.elements k = (l.run ctx ops).elements k
    rw [helements, hstart, hprefix.elements, List.map_append,
      replay_of_prefix (List.map_append ▸ hlog.grounded), hlog.elements, List.map_append]

section Example

/-- An element is made, changed, removed and made again. -/
def editedOps : List (ListOp 1) :=
  [.create 1 (Vector.replicate 1 3), .set 1 (Vector.replicate 1 4), .remove 1,
    .create 1 (Vector.replicate 1 5)]

def editedContext : ListContext := ⟨⟨[119], [112], 0⟩, [], none, 0⟩

def emptyList : NetVarList := { size := 1, initial := Vector.replicate 1 0 }

/-- What the list is when a client joins. -/
def joinedList : NetVarList := { emptyList.run editedContext (editedOps.take 2) with updateQueue := [] }

def joinedManager : CEntities where
  name := [112]
  name_le := CEntities.p_le
  cls := .bare
  objects := [{ ref := 0, netID := 0, lists := [joinedList] }]

def joinedClient : NetSystem where
  server := false
  instances := [{ name := [119], managers := [joinedManager] }]

theorem catch_up_lateJoin : ∃ Q : List QueuedPacket,
    (emptyList.run editedContext editedOps).updateQueue = Q ∧
      ∃ copy', (Q.foldl (fun c q => c.onRemote q.msg) joinedClient).findList
          editedContext.object editedContext.listID = some copy' ∧
        ∀ k, copy'.find k = (emptyList.run editedContext editedOps).find k := by
  obtain ⟨Q, hQ, hcopy⟩ := catch_up editedContext (l := emptyList) editedOps
  exact ⟨Q, hQ, hcopy 2 joinedClient joinedList rfl rfl fun k => rfl⟩

end Example

end Nettik
